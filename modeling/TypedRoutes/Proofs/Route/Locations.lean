import TypedRoutes.Proofs.Text.Pieces
import TypedRoutes.Route.AllowList
import Mathlib.Tactic.MkIffOfInductiveProp

/-!
# Canonical locations

Resolving a path takes its pieces one by one and keeps the segments that still stand. All of them
are ordinary names, so the text that is written for them is resolved to itself; and a piece that
leaves the segments as they are, or a name that is left again at once, can stand anywhere in a path.
-/

namespace TypedRoutes

/-- The segment names a file or a directory: it says something, it is no dot and no double dot, and
no slash of either kind stands in it. -/
@[mk_iff] structure IsOrdinary (segment : List Char) : Prop where
  ne_nil : segment ≠ []
  ne_here : segment ≠ ['.']
  ne_up : segment ≠ ['.', '.']
  no_slash : '/' ∉ segment
  no_backslash : '\\' ∉ segment

instance : DecidablePred IsOrdinary := fun segment =>
  decidable_of_iff _ (isOrdinary_iff segment).symm

/-- What an absolute path starts with: a slash, or the letter of a drive, a colon and a slash. -/
inductive IsStart : List Char → Prop where
  | root : IsStart ['/']
  | drive {letter : Char} (h : letter.isAlpha = true) : IsStart [letter, ':', '/']

/-- An absolute path with nothing but ordinary segments behind its start. -/
def IsCanonical (path : List Char) : Prop :=
  ∃ start segments, IsStart start ∧ (∀ segment ∈ segments, IsOrdinary segment) ∧
    path = start ++ slashed segments

/-- The path starts at the root directory or at a drive, with slashes of either kind. -/
def IsAbsolute (path : String) : Prop := isAnchored (toSlashes path.toList) = true

instance : DecidablePred IsAbsolute :=
  fun path => inferInstanceAs (Decidable (isAnchored (toSlashes path.toList) = true))

/-- Both kinds of slash. -/
def IsSeparator (c : Char) : Prop := c = '/' ∨ c = '\\'

/-- The second path differs from the first one in one place behind a separator: another separator,
a dot, or a name that is left again stands there, or the separator is of the other kind. -/
inductive Respelled : List Char → List Char → Prop where
  | doubled {separator second : Char} (before after : List Char) (h : IsSeparator separator)
      (hs : IsSeparator second) :
      Respelled (before ++ separator :: after) (before ++ separator :: second :: after)
  | backslash (before after : List Char) :
      Respelled (before ++ '/' :: after) (before ++ '\\' :: after)
  | here {separator second : Char} (before after : List Char) (h : IsSeparator separator)
      (hs : IsSeparator second) :
      Respelled (before ++ separator :: after) (before ++ separator :: '.' :: second :: after)
  | detour {separator second third : Char} {segment : List Char} (before after : List Char)
      (h : IsSeparator separator) (hs : IsSeparator second) (ht : IsSeparator third)
      (name : IsOrdinary segment) :
      Respelled (before ++ separator :: after)
        (before ++ separator :: (segment ++ second :: '.' :: '.' :: third :: after))

/-! ## Slashes -/

/-- Separators are unified piece by piece. -/
theorem toSlashes_append (front back : List Char) :
    toSlashes (front ++ back) = toSlashes front ++ toSlashes back :=
  List.map_append

/-- Every separator becomes a slash. -/
theorem toSlashes_separator {separator : Char} (h : IsSeparator separator) (rest : List Char) :
    toSlashes (separator :: rest) = '/' :: toSlashes rest := by
  rcases h with rfl | rfl <;> rfl

theorem toSlashes_dot (rest : List Char) : toSlashes ('.' :: rest) = '.' :: toSlashes rest := rfl

/-- A path without backslashes is left as it is. -/
theorem toSlashes_eq_self {path : List Char} (h : '\\' ∉ path) : toSlashes path = path := by
  have hc : ∀ c ∈ path, (if c = '\\' then '/' else c) = c := by
    intro c hc
    rw [if_neg]
    rintro rfl
    exact h hc
  rw [toSlashes, List.map_congr_left hc, List.map_id']

/-- No backslash is left. -/
theorem no_backslash_toSlashes (path : List Char) : '\\' ∉ toSlashes path := by
  intro h
  obtain ⟨c, -, hc⟩ := List.mem_map.mp h
  split at hc
  · simp at hc
  · contradiction

/-! ## Anchors -/

/-- A path is anchored if it has an anchor to split off. -/
theorem isAnchored_iff {path : List Char} :
    isAnchored path = true ↔ (splitAnchor path).1 ≠ .nowhere := by
  simp [isAnchored]

/-- Behind an anchor the path goes on as it does. -/
theorem splitAnchor_append {path : List Char} (h : isAnchored path = true) (back : List Char) :
    splitAnchor (path ++ back) = ((splitAnchor path).1, (splitAnchor path).2 ++ back) := by
  rw [isAnchored_iff] at h
  unfold splitAnchor at h ⊢
  split at h
  · rfl
  · rename_i letter rest hslash
    split at h
    · rename_i hletter
      simp [hletter]
    · simp at h
  · simp at h

/-- What follows does not change whether a path is anchored. -/
theorem isAnchored_append {path : List Char} (h : isAnchored path = true) (back : List Char) :
    isAnchored (path ++ back) = true := by
  rw [isAnchored_iff, splitAnchor_append h]
  exact isAnchored_iff.mp h

/-- Only letters name drives. -/
theorem isAlpha_of_splitAnchor {path : List Char} {letter : Char}
    (h : (splitAnchor path).1 = .drive letter) : letter.isAlpha = true := by
  unfold splitAnchor at h
  split at h
  · simp at h
  · split at h
    · rename_i hletter
      obtain rfl := Anchor.drive.inj h
      exact hletter
    · simp at h
  · simp at h

/-- What is left behind the anchor comes from the path. -/
theorem splitAnchor_subset (path : List Char) : (splitAnchor path).2 ⊆ path := by
  unfold splitAnchor
  split
  · exact List.subset_cons_self _ _
  · split
    · exact List.Subset.trans (List.subset_cons_self _ _) (List.subset_cons_self _ _)
    · exact List.Subset.refl _
  · exact List.Subset.refl _

/-- No anchor comes about across a slash, but for the slash itself. -/
theorem splitAnchor_unanchored {before : List Char} (hne : before ≠ [])
    (h : isAnchored before = false) (after : List Char) :
    splitAnchor (before ++ '/' :: after) = (.nowhere, before ++ '/' :: after) := by
  have hnot : ¬ isAnchored before = true := by simp [h]
  rw [isAnchored_iff, not_not] at hnot
  match before with
  | [c] =>
    have hc : c ≠ '/' := by
      rintro rfl
      simp [splitAnchor] at hnot
    simp [splitAnchor, hc]
  | c :: d :: rest =>
    by_cases hc : c = '/'
    · subst hc
      simp [splitAnchor] at hnot
    · by_cases hd : d = ':'
      · subst hd
        by_cases hletter : c.isAlpha = true
        · simp [splitAnchor, hletter] at hnot
        · simp [splitAnchor, hletter]
      · simp [splitAnchor, hc, hd]

/-- In front of a slash a path is anchored, or not, whatever stands behind the slash; the pieces
behind the slash come last. -/
theorem splitAnchor_before (before : List Char) :
    ∃ anchor front, ∀ after, (splitAnchor (before ++ '/' :: after)).1 = anchor ∧
      pieces '/' (splitAnchor (before ++ '/' :: after)).2 = front ++ pieces '/' after := by
  by_cases hne : before = []
  · subst hne
    exact ⟨.root, [], fun _ => ⟨rfl, rfl⟩⟩
  · cases hanchored : isAnchored before with
    | true =>
      refine ⟨(splitAnchor before).1, pieces '/' (splitAnchor before).2, fun after => ?_⟩
      rw [splitAnchor_append hanchored]
      exact ⟨rfl, pieces_append _ after⟩
    | false =>
      refine ⟨.nowhere, pieces '/' before, fun after => ?_⟩
      rw [splitAnchor_unanchored hne hanchored]
      exact ⟨rfl, pieces_append before after⟩

/-! ## Segments -/

/-- An ordinary segment is kept. -/
theorem pushSegment_ordinary {segment : List Char} (h : IsOrdinary segment) (anchored : Bool)
    (taken : List (List Char)) : pushSegment anchored taken segment = segment :: taken := by
  simp [pushSegment, h.ne_nil, h.ne_here, h.ne_up]

/-- A double dot takes back an ordinary segment. -/
theorem pushSegment_up {segment : List Char} (h : IsOrdinary segment) (anchored : Bool)
    (taken : List (List Char)) : pushSegment anchored (segment :: taken) ['.', '.'] = taken := by
  simp [pushSegment, h.ne_up]

/-- Ordinary segments are pushed as they are. -/
theorem foldl_pushSegment_ordinary {segments : List (List Char)}
    (h : ∀ segment ∈ segments, IsOrdinary segment) (anchored : Bool) (taken : List (List Char)) :
    segments.foldl (pushSegment anchored) taken = segments.reverse ++ taken := by
  induction segments generalizing taken with
  | nil => rfl
  | cons segment rest ih =>
    have hrest : ∀ other ∈ rest, IsOrdinary other :=
      fun other hother => h other (List.mem_cons_of_mem _ hother)
    rw [List.foldl_cons, pushSegment_ordinary (h segment List.mem_cons_self), ih hrest,
      List.reverse_cons, List.append_assoc, List.singleton_append]

/-- Behind an anchor only ordinary segments are ever taken. -/
theorem pushSegment_keeps {taken : List (List Char)} {segment : List Char}
    (h : ∀ other ∈ taken, IsOrdinary other) (hslash : '/' ∉ segment)
    (hbackslash : '\\' ∉ segment) :
    ∀ other ∈ pushSegment true taken segment, IsOrdinary other := by
  unfold pushSegment
  by_cases hsilent : segment = [] ∨ segment = ['.']
  · rw [if_pos hsilent]
    exact h
  · rw [if_neg hsilent]
    by_cases hup : segment = ['.', '.']
    · rw [if_pos hup]
      cases taken with
      | nil => exact h
      | cons last rest =>
        have hlast := (h last List.mem_cons_self).ne_up
        simp only [hlast, if_false]
        exact fun other hother => h other (List.mem_cons_of_mem _ hother)
    · rw [if_neg hup]
      intro other hother
      rcases List.mem_cons.mp hother with rfl | hother
      · exact ⟨fun hnil => hsilent (.inl hnil), fun hdot => hsilent (.inr hdot), hup, hslash,
          hbackslash⟩
      · exact h other hother

/-- Whatever is pushed, the stack holds ordinary segments only. -/
theorem foldl_pushSegment_keeps {segments taken : List (List Char)}
    (h : ∀ other ∈ taken, IsOrdinary other)
    (hslash : ∀ segment ∈ segments, '/' ∉ segment)
    (hbackslash : ∀ segment ∈ segments, '\\' ∉ segment) :
    ∀ other ∈ segments.foldl (pushSegment true) taken, IsOrdinary other := by
  induction segments generalizing taken with
  | nil => exact h
  | cons segment rest ih =>
    apply ih
    · exact pushSegment_keeps h (hslash segment List.mem_cons_self)
        (hbackslash segment List.mem_cons_self)
    · exact fun other hother => hslash other (List.mem_cons_of_mem _ hother)
    · exact fun other hother => hbackslash other (List.mem_cons_of_mem _ hother)

/-! ## Resolved paths -/

/-- The segments that are left of an anchored path are ordinary. -/
theorem Location.ordinary_ofSlashed {path : List Char} (h : isAnchored path = true)
    (hbackslash : '\\' ∉ path) : ∀ segment ∈ (ofSlashed path).segments, IsOrdinary segment := by
  have hanchor : ((splitAnchor path).1 != .nowhere) = true := h
  have hclean : ∀ piece ∈ pieces '/' (splitAnchor path).2, '\\' ∉ piece := by
    intro piece hpiece hmem
    exact hbackslash (splitAnchor_subset path (subset_of_mem_pieces hpiece hmem))
  intro segment hsegment
  simp only [ofSlashed, hanchor, List.mem_reverse] at hsegment
  exact foldl_pushSegment_keeps (by simp) (fun _ => not_mem_piece _) hclean segment hsegment

/-- Resolving an anchored path gives a canonical one. -/
theorem isCanonical_normalize {path : List Char} (h : isAnchored path = true)
    (hbackslash : '\\' ∉ path) : IsCanonical (normalize path) := by
  refine ⟨(splitAnchor path).1.text, (Location.ofSlashed path).segments, ?_,
    Location.ordinary_ofSlashed h hbackslash, rfl⟩
  cases hanchor : (splitAnchor path).1 with
  | nowhere => exact absurd hanchor (isAnchored_iff.mp h)
  | root => exact .root
  | drive letter => exact .drive (isAlpha_of_splitAnchor hanchor)

/-- The pieces of joined segments say what the segments say. -/
theorem foldl_pieces_slashed {segments : List (List Char)}
    (h : ∀ segment ∈ segments, IsOrdinary segment) (anchored : Bool) :
    (pieces '/' (slashed segments)).foldl (pushSegment anchored) [] = segments.reverse := by
  by_cases hne : segments = []
  · subst hne
    rfl
  · rw [pieces_slashed hne fun segment hsegment => (h segment hsegment).no_slash,
      foldl_pushSegment_ordinary h, List.append_nil]

/-- The anchor of a path is read off its start. -/
theorem IsStart.ofSlashed {start : List Char} (hstart : IsStart start)
    {segments : List (List Char)} (h : ∀ segment ∈ segments, IsOrdinary segment) :
    ∃ anchor : Anchor, anchor ≠ .nowhere ∧ anchor.text = start ∧
      Location.ofSlashed (start ++ slashed segments) = ⟨anchor, segments⟩ := by
  cases hstart with
  | root =>
    refine ⟨.root, by simp, rfl, ?_⟩
    simp [Location.ofSlashed, splitAnchor, foldl_pieces_slashed h]
  | @drive letter hletter =>
    have hslash : letter ≠ '/' := by
      rintro rfl
      exact absurd hletter (by decide)
    refine ⟨.drive letter, by simp, rfl, ?_⟩
    simp [Location.ofSlashed, splitAnchor, hletter, pieces, pushSegment,
      foldl_pieces_slashed h]

namespace IsCanonical

variable {path : List Char}

/-- A canonical path is resolved to itself. -/
theorem normalize_eq (h : IsCanonical path) : normalize path = path := by
  obtain ⟨start, segments, hstart, hsegments, rfl⟩ := h
  obtain ⟨anchor, -, htext, hlocation⟩ := hstart.ofSlashed hsegments
  rw [normalize, hlocation, Location.text, htext]

/-- A canonical path is anchored. -/
theorem isAnchored (h : IsCanonical path) : isAnchored path = true := by
  obtain ⟨start, segments, hstart, hsegments, rfl⟩ := h
  obtain ⟨anchor, hanchor, -, hlocation⟩ := hstart.ofSlashed hsegments
  rw [isAnchored_iff]
  exact (congrArg Location.anchor hlocation).trans_ne hanchor

/-- A canonical path has no backslash. -/
theorem no_backslash (h : IsCanonical path) : '\\' ∉ path := by
  obtain ⟨start, segments, hstart, hsegments, rfl⟩ := h
  intro hmem
  rcases List.mem_append.mp hmem with hmem | hmem
  · cases hstart with
    | root => simp at hmem
    | @drive letter hletter =>
      have hback : letter ≠ '\\' := by
        rintro rfl
        exact absurd hletter (by decide)
      simp [Ne.symm hback] at hmem
  · obtain ⟨segment, hsegment, hback⟩ := (mem_slashed_iff (by decide)).mp hmem
    exact (hsegments segment hsegment).no_backslash hback

end IsCanonical

/-! ## Respelling -/

/-- Resolving takes the pieces behind a slash after whatever stands in front of it. -/
theorem Location.ofSlashed_before (before : List Char) :
    ∃ anchor taken, ∀ after, ofSlashed (before ++ '/' :: after) =
      ⟨anchor, ((pieces '/' after).foldl (pushSegment (anchor != .nowhere)) taken).reverse⟩ := by
  obtain ⟨anchor, front, h⟩ := splitAnchor_before before
  refine ⟨anchor, front.foldl (pushSegment (anchor != .nowhere)) [], fun after => ?_⟩
  obtain ⟨hanchor, hpieces⟩ := h after
  simp only [ofSlashed, hanchor, hpieces, List.foldl_append]

/-- Behind a slash, pieces that leave the segments taken so far as they are say nothing. -/
theorem normalize_behind {after other : List Char} (before : List Char)
    (h : ∀ anchored taken, (pieces '/' other).foldl (pushSegment anchored) taken =
      (pieces '/' after).foldl (pushSegment anchored) taken) :
    normalize (before ++ '/' :: other) = normalize (before ++ '/' :: after) := by
  obtain ⟨anchor, taken, hlocation⟩ := Location.ofSlashed_before before
  simp only [normalize, hlocation, h]

/-- What stands behind a slash does not change whether a path is anchored. -/
theorem isAnchored_behind (before after other : List Char) :
    isAnchored (before ++ '/' :: other) = isAnchored (before ++ '/' :: after) := by
  obtain ⟨anchor, front, h⟩ := splitAnchor_before before
  simp only [isAnchored, (h other).1, (h after).1]

/-- Respelled paths are the same path with more pieces behind a slash, which say nothing. -/
theorem Respelled.exists_behind {path other : List Char} (h : Respelled path other) :
    ∃ before after extended, toSlashes path = before ++ '/' :: after ∧
      toSlashes other = before ++ '/' :: extended ∧
      ∀ anchored taken, (pieces '/' extended).foldl (pushSegment anchored) taken =
        (pieces '/' after).foldl (pushSegment anchored) taken := by
  cases h with
  | doubled before after h hs =>
    refine ⟨toSlashes before, toSlashes after, '/' :: toSlashes after, ?_, ?_, fun _ _ => rfl⟩
    · rw [toSlashes_append, toSlashes_separator h]
    · rw [toSlashes_append, toSlashes_separator h, toSlashes_separator hs]
  | backslash before after =>
    refine ⟨toSlashes before, toSlashes after, toSlashes after, ?_, ?_, fun _ _ => rfl⟩
    · rw [toSlashes_append, toSlashes_separator (.inl rfl)]
    · rw [toSlashes_append, toSlashes_separator (.inr rfl)]
  | here before after h hs =>
    refine ⟨toSlashes before, toSlashes after, '.' :: '/' :: toSlashes after, ?_, ?_, ?_⟩
    · rw [toSlashes_append, toSlashes_separator h]
    · rw [toSlashes_append, toSlashes_separator h, toSlashes_dot, toSlashes_separator hs]
    · intro anchored taken
      rw [← List.singleton_append, pieces_append]
      rfl
  | @detour _ second third segment before after h hs ht name =>
    refine ⟨toSlashes before, toSlashes after,
      segment ++ '/' :: (['.', '.'] ++ '/' :: toSlashes after), ?_, ?_, ?_⟩
    · rw [toSlashes_append, toSlashes_separator h]
    · have hinner : toSlashes (second :: '.' :: '.' :: third :: after) =
          '/' :: (['.', '.'] ++ '/' :: toSlashes after) := by
        rw [toSlashes_separator hs, toSlashes_dot, toSlashes_dot, toSlashes_separator ht]
        rfl
      rw [toSlashes_append, toSlashes_separator h, toSlashes_append,
        toSlashes_eq_self name.no_backslash, hinner]
    · intro anchored taken
      rw [pieces_append, pieces_append, pieces_eq_singleton name.no_slash, List.foldl_append,
        List.foldl_append, List.foldl_cons, List.foldl_nil, pushSegment_ordinary name,
        pieces_eq_singleton (by decide), List.foldl_cons, List.foldl_nil, pushSegment_up name]

/-! ## Files and package roots -/

namespace AllowList

/-- The root of a package is canonical where it is absolute or the working directory is. -/
theorem isCanonical_ofRoot {workingDirectory : String} (root : String)
    (h : IsAbsolute root ∨ IsAbsolute workingDirectory) :
    IsCanonical (ofRoot workingDirectory root).root := by
  unfold ofRoot
  by_cases hroot : isAnchored (toSlashes root.toList) = true
  · rw [if_pos hroot]
    exact isCanonical_normalize hroot (no_backslash_toSlashes _)
  · rw [if_neg hroot]
    have hdirectory := h.resolve_left hroot
    apply isCanonical_normalize (isAnchored_append hdirectory _)
    simp [no_backslash_toSlashes]

variable {allowList : AllowList}

/-- Files are resolved to canonical paths. -/
theorem isCanonical_resolve (h : IsCanonical allowList.root) (file : String) :
    IsCanonical (allowList.resolve file) := by
  unfold resolve
  by_cases hfile : isAnchored (toSlashes file.toList) = true
  · rw [if_pos hfile]
    exact isCanonical_normalize hfile (no_backslash_toSlashes _)
  · rw [if_neg hfile]
    apply isCanonical_normalize (isAnchored_append h.isAnchored _)
    simp [no_backslash_toSlashes, h.no_backslash]

/-- A canonical path is resolved to itself, wherever the package is. -/
theorem resolve_eq_self {path : List Char} (h : IsCanonical path) (allowList : AllowList) :
    allowList.resolve (String.ofList path) = path := by
  rw [resolve, String.toList_ofList, toSlashes_eq_self h.no_backslash]
  rw [if_pos h.isAnchored, h.normalize_eq]

/-- Respelled paths are resolved to the same path. -/
theorem resolve_respelled {file other : String} (h : Respelled file.toList other.toList) :
    allowList.resolve other = allowList.resolve file := by
  obtain ⟨before, after, extended, hfile, hother, hsame⟩ := h.exists_behind
  simp only [resolve, hfile, hother, isAnchored_behind before after extended]
  by_cases hanchored : TypedRoutes.isAnchored (before ++ '/' :: after) = true
  · rw [if_pos hanchored, if_pos hanchored, normalize_behind before hsame]
  · rw [if_neg hanchored, if_neg hanchored]
    have hbehind := normalize_behind (allowList.root ++ '/' :: before) hsame
    simpa only [List.append_assoc, List.cons_append] using hbehind

/-- Resolving a file gives an absolute path of ordinary segments, which is resolved to itself under
every root. It is the same for all spellings of the file. -/
theorem resolve_canonical {workingDirectory : String} (h : IsAbsolute workingDirectory)
    (root file : String) :
    IsCanonical ((ofRoot workingDirectory root).resolve file) ∧
      (∀ otherDirectory otherRoot : String,
        (ofRoot otherDirectory otherRoot).resolve
            (String.ofList ((ofRoot workingDirectory root).resolve file)) =
          (ofRoot workingDirectory root).resolve file) ∧
      ∀ other : String, Respelled file.toList other.toList →
        (ofRoot workingDirectory root).resolve other =
          (ofRoot workingDirectory root).resolve file := by
  have hcanonical := isCanonical_resolve (isCanonical_ofRoot root (.inr h)) file
  exact ⟨hcanonical, fun _ _ => resolve_eq_self hcanonical _, fun _ => resolve_respelled⟩

theorem resolve_canonical_drive :
    IsAbsolute "/srv" ∧ Respelled "src/./a.ts".toList "src/./b/..\\a.ts".toList ∧
      (ofRoot "/srv" "C:app\\..").resolve "src/./a.ts" = "C:/src/a.ts".toList ∧
      IsCanonical ((ofRoot "/srv" "C:app\\..").resolve "src/./a.ts") ∧
      (ofRoot "/" "x").resolve
          (String.ofList ((ofRoot "/srv" "C:app\\..").resolve "src/./a.ts")) =
        (ofRoot "/srv" "C:app\\..").resolve "src/./a.ts" ∧
      (ofRoot "/srv" "C:app\\..").resolve "src/./b/..\\a.ts" =
        (ofRoot "/srv" "C:app\\..").resolve "src/./a.ts" := by
  have habsolute : IsAbsolute "/srv" := by decide
  have hrespelled : Respelled "src/./a.ts".toList "src/./b/..\\a.ts".toList :=
    @Respelled.detour '/' '/' '\\' ['b'] "src/.".toList "a.ts".toList (.inl rfl) (.inl rfl)
      (.inr rfl)
      (by decide)
  obtain ⟨hcanonical, hagain, hsame⟩ :=
    resolve_canonical habsolute "C:app\\.." "src/./a.ts"
  exact ⟨habsolute, hrespelled, by decide, hcanonical, hagain "/" "x", hsame _ hrespelled⟩

end AllowList

end TypedRoutes
