import TypedRoutes.Proofs.Disk.Paths

/-!
# The steps of a path

The steps of a path are what it starts with, if that is the root directory or a dot, and the steps
of its pieces. Where all steps of a path are names they stand behind those of any path that it is
joined to, and its parent has all of them but the last one.
-/

namespace TypedRoutes

namespace DiskPath

variable {path base tail : DiskPath}

/-- The steps of pieces are what their names say. -/
theorem pieceSteps_eq_map (segments : List (List Char)) :
    pieceSteps segments = (namesOf segments).map fun name => pieceStep name.toList := by
  rw [pieceSteps, namesOf, List.map_map]
  exact List.map_congr_left fun piece _ => by simp

theorem pieceSteps_append (front back : List (List Char)) :
    pieceSteps (front ++ back) = pieceSteps front ++ pieceSteps back := by
  simp [pieceSteps]

/-- What a path starts with, in front of what its pieces say. -/
def lead (path : DiskPath) : List PathStep :=
  if path.isRooted then [.root]
  else if path.allPieces.head? = some ['.'] then [.here]
  else []

theorem steps_eq (path : DiskPath) : path.steps = path.lead ++ pieceSteps path.allPieces := by
  rw [steps, lead]
  split
  · rename_i rest heq
    rw [if_pos (by simp [isRooted, heq]), allPieces, heq, pieces, if_pos rfl]
    rfl
  · rename_i hrooted
    rw [if_neg (by rw [isRooted_eq_false_iff.mpr hrooted]; exact Bool.false_ne_true), allPieces]
    split
    · rename_i rest heq
      rw [heq]
      rfl
    · rename_i hdot
      rw [if_neg, List.nil_append]
      intro hhead
      obtain ⟨rest, hrest⟩ := List.head?_eq_some_iff.mp hhead
      exact hdot rest hrest

theorem lead_eq_nil_iff :
    path.lead = [] ↔ path.isRooted = false ∧ path.allPieces.head? ≠ some ['.'] := by
  rw [lead]
  split
  · rename_i hrooted
    simp [hrooted]
  · rename_i hrooted
    split
    · rename_i hdot
      simp [hdot]
    · rename_i hdot
      simp [hrooted, hdot]

theorem name_not_mem_lead {name : List Char} : .name name ∉ path.lead := by
  rw [lead]
  split
  · simp
  · split <;> simp

/-- Every step of a path is a name. -/
def IsPlain (path : DiskPath) : Prop :=
  ∃ names : List (List Char), path.steps = names.map .name

/-- Nothing stands in front of the pieces of a path whose steps are names. -/
theorem IsPlain.lead_eq_nil (h : path.IsPlain) : path.lead = [] := by
  obtain ⟨names, hnames⟩ := h
  rw [steps_eq] at hnames
  cases hlead : path.lead with
  | nil => rfl
  | cons step rest =>
    have hmem : step ∈ names.map PathStep.name := by simp [← hnames, hlead]
    obtain ⟨name, -, rfl⟩ := List.mem_map.mp hmem
    have hname : .name name ∈ path.lead := by rw [hlead]; exact List.mem_cons_self
    exact absurd hname name_not_mem_lead

theorem IsPlain.steps_eq (h : path.IsPlain) : path.steps = pieceSteps path.allPieces := by
  rw [DiskPath.steps_eq, h.lead_eq_nil, List.nil_append]

/-! ## Joined paths -/

theorem lead_join (hbase : base.chars ≠ []) (htail : tail.isRooted = false) :
    (base.join tail).lead = base.lead := by
  obtain ⟨front, hjoin, hfront⟩ := allPieces_join hbase htail
  -- the first piece is one of the base, since a base that is not empty has more than an empty piece
  have hne : front ≠ [] := by
    rintro rfl
    have hpieces : base.allPieces = [[]] := by
      rcases hfront with h | h
      · exact absurd h (pieces_ne_nil '/' base.chars)
      · exact h
    exact hbase (by rw [← slashed_pieces base.chars, ← allPieces, hpieces]; rfl)
  have hhead : (base.join tail).allPieces.head? = base.allPieces.head? := by
    rw [hjoin, List.head?_append_of_ne_nil _ hne]
    rcases hfront with h | h
    · rw [h]
    · rw [h, List.head?_append_of_ne_nil _ hne]
  rw [lead, lead, isRooted_join hbase htail, hhead]

/-- The steps of a joined path. -/
theorem steps_join (base : DiskPath) (h : tail.IsPlain) :
    (base.join tail).steps = base.steps ++ tail.steps := by
  have hrooted := (lead_eq_nil_iff.mp h.lead_eq_nil).1
  by_cases hbase : base.chars = []
  · obtain ⟨_⟩ := base
    obtain rfl := hbase
    rw [join, List.isEmpty_nil, Bool.or_true, if_pos rfl]
    rfl
  · obtain ⟨front, hjoin, hfront⟩ := allPieces_join hbase hrooted
    have hsilent : pieceSteps base.allPieces = pieceSteps front := by
      rcases hfront with h | h
      · rw [h]
      · rw [h, pieceSteps_append]
        exact List.append_nil _
    rw [DiskPath.steps_eq, lead_join hbase hrooted, hjoin, pieceSteps_append, ← hsilent,
      ← List.append_assoc, ← DiskPath.steps_eq, ← h.steps_eq]

/-! ## Parents -/

theorem namesOf_of_dropStep_eq_none {segments : List (List Char)} (h : dropStep? segments = none) :
    namesOf segments = [] := by
  rw [dropStep?] at h
  split at h
  · rename_i hnil
    rw [← namesOf_trimSilent, hnil, namesOf_nil]
  · cases h

section Parent

variable {first : List Char} {rest kept : List (List Char)} (hrooted : path.isRooted = false)
  (hpieces : path.allPieces = first :: rest)

include hrooted hpieces

/-- Away from the root directory the first piece of a path stays in its parent. -/
theorem parent?_of_dropStep (hdrop : dropStep? rest = some kept) :
    path.parent? = some ⟨slashed (first :: kept)⟩ := by
  rw [parent?]
  split
  · rename_i more heq
    exact absurd heq (isRooted_eq_false_iff.mp hrooted more)
  · rw [← allPieces, hpieces]
    simp only [hdrop]

/-- A path that says nothing behind its first piece has the empty path as its parent. -/
theorem parent?_of_first (hdrop : dropStep? rest = none) (hfirst : first.isEmpty = false) :
    path.parent? = some ⟨[]⟩ := by
  rw [parent?]
  split
  · rename_i more heq
    exact absurd heq (isRooted_eq_false_iff.mp hrooted more)
  · rw [← allPieces, hpieces]
    simp only [hdrop, hfirst, Bool.false_eq_true, if_false]

end Parent

/-- The parent of a path whose steps are names starts with nothing either, and has all names but the
last one. -/
theorem IsPlain.names_parent (h : path.IsPlain) (hne : path.names ≠ []) :
    ∃ parent, path.parent? = some parent ∧ parent.lead = [] ∧
      parent.names = path.names.dropLast := by
  obtain ⟨hrooted, hdot⟩ := lead_eq_nil_iff.mp h.lead_eq_nil
  rw [names] at hne ⊢
  cases hpieces : path.allPieces with
  | nil => exact absurd hpieces (pieces_ne_nil '/' path.chars)
  | cons first rest =>
    have hall : ∀ piece ∈ first :: rest, '/' ∉ piece := by
      rw [← hpieces]
      exact not_mem_piece
    cases hdrop : dropStep? rest with
    | some kept =>
      have hparent := parent?_of_dropStep hrooted hpieces hdrop
      have hkept : ∀ piece ∈ first :: kept, '/' ∉ piece := by
        intro piece hpiece
        rcases List.mem_cons.mp hpiece with rfl | hmem
        · exact hall _ List.mem_cons_self
        · exact hall _ (List.mem_cons_of_mem _ (mem_of_mem_dropStep hdrop hmem))
      have hparentPieces : allPieces ⟨slashed (first :: kept)⟩ = first :: kept :=
        pieces_slashed (List.cons_ne_nil _ _) hkept
      have hparentRooted : isRooted ⟨slashed (first :: kept)⟩ = false := by
        by_cases hempty : slashed (first :: kept) = []
        · rw [hempty]
          rfl
        · rw [(isParent_of_parent hparent hempty).rooted, hrooted]
      refine ⟨_, hparent, ?_, ?_⟩
      · rw [hpieces] at hdot
        exact lead_eq_nil_iff.mpr ⟨hparentRooted, by rwa [hparentPieces]⟩
      · obtain ⟨name, hname⟩ := namesOf_dropStep hdrop
        rw [names, hparentPieces, namesOf_cons first kept, namesOf_cons first rest, hname,
          ← List.append_assoc, List.dropLast_concat]
    | none =>
      have hrest := namesOf_of_dropStep_eq_none hdrop
      rw [hpieces, namesOf_cons, hrest, List.append_nil] at hne
      have hfirst : isSilent first = false := by
        rw [Bool.eq_false_iff]
        exact fun hsilent => hne (namesOf_silent hsilent)
      have hnonempty : first.isEmpty = false := by
        rw [List.isEmpty_eq_false_iff]
        rintro rfl
        cases hfirst
      refine ⟨_, parent?_of_first hrooted hpieces hdrop hnonempty, rfl, ?_⟩
      rw [namesOf_cons, hrest, List.append_nil, namesOf_name hfirst]
      rfl

/-- Taking the last step away from a path whose steps are names. -/
theorem IsPlain.parent (h : path.IsPlain) (hne : path.steps ≠ []) :
    ∃ parent, path.parent? = some parent ∧ parent.IsPlain ∧
      parent.steps = path.steps.dropLast := by
  have hpath := h.steps_eq
  rw [pieceSteps_eq_map, ← names] at hpath
  obtain ⟨parent, hparent, hlead, hnames⟩ :=
    h.names_parent fun hnil => hne (by rw [hpath, hnil]; rfl)
  have hsteps : parent.steps = path.steps.dropLast := by
    rw [DiskPath.steps_eq, hlead, List.nil_append, pieceSteps_eq_map, ← names, hnames, hpath,
      List.map_dropLast]
  obtain ⟨all, hall⟩ := h
  exact ⟨parent, hparent, ⟨all.dropLast, by rw [hsteps, hall, List.map_dropLast]⟩, hsteps⟩

/-! ## Names -/

theorem pieceSteps_name {piece : List Char} (hspeaks : isSilent piece = false)
    (hup : piece ≠ ['.', '.']) : pieceSteps [piece] = [.name piece] := by
  simp [pieceSteps, hspeaks, pieceStep, hup]

/-- A path is named by its last piece, if that says something. -/
theorem fileName_of_last {last : List Char} (hlast : path.allPieces.getLast? = some last)
    (hspeaks : isSilent last = false) (hup : last ≠ ['.', '.']) : path.fileName? = some last := by
  obtain ⟨others, hothers⟩ := List.getLast?_eq_some_iff.mp hlast
  rw [fileName?, steps_eq, hothers, pieceSteps_append, pieceSteps_name hspeaks hup,
    ← List.append_assoc, List.getLast?_concat]

/-- A name on a path is a piece of it. -/
theorem no_slash_of_mem_steps {name : List Char} (h : .name name ∈ path.steps) : '/' ∉ name := by
  rw [steps_eq, List.mem_append] at h
  obtain ⟨piece, hmem, hstep⟩ := List.mem_map.mp (h.resolve_left name_not_mem_lead)
  rw [pieceStep] at hstep
  split at hstep
  · cases hstep
  · obtain rfl := PathStep.name.inj hstep
    exact not_mem_piece _ (List.mem_filter.mp hmem).1

/-- A path without a step up has no piece that says so. -/
theorem neverUp_of_steps (h : .up ∉ path.steps) : path.NeverUp := by
  intro hmem
  have hup : PathStep.up ∈ pieceSteps path.allPieces :=
    List.mem_map.mpr ⟨['.', '.'], List.mem_filter.mpr ⟨hmem, rfl⟩, rfl⟩
  rw [steps_eq] at h
  exact h (List.mem_append_right _ hup)

/-- A text without slashes that is longer than two dots is a path of one name. -/
theorem steps_of_name {name : List Char} (hslash : '/' ∉ name) (hlong : 2 < name.length) :
    steps ⟨name⟩ = [.name name] := by
  have hpieces : allPieces ⟨name⟩ = [name] := pieces_eq_singleton hslash
  obtain ⟨hspeaks, hup⟩ := name_of_long hlong
  have hlead : lead ⟨name⟩ = [] := by
    refine lead_eq_nil_iff.mpr ⟨isRooted_eq_false_of_no_slash hslash, ?_⟩
    rw [hpieces]
    intro hdot
    obtain rfl : name = ['.'] := Option.some.inj hdot
    cases hspeaks
  rw [steps_eq, hlead, hpieces, List.nil_append, pieceSteps_name hspeaks hup]

end DiskPath

/-! ## Relative paths of places -/

namespace Place

variable {place : Place}

/-- The steps of a place, from the directory it is relative to. -/
theorem steps_relativePath (h : ∀ name ∈ place, IsEntryName name) :
    place.relativePath.steps = place.map fun name => .name name.toList := by
  have hlead : place.relativePath.lead = [] := by
    refine DiskPath.lead_eq_nil_iff.mpr ⟨isRooted_relativePath h, fun hhead => ?_⟩
    cases place with
    | nil => cases hhead
    | cons first rest =>
      rw [allPieces_relativePath (List.cons_ne_nil _ _) h] at hhead
      have hdot : first.toList = ['.'] := Option.some.inj hhead
      have hspeaks := (h first List.mem_cons_self).speaks
      rw [hdot] at hspeaks
      cases hspeaks
  rw [DiskPath.steps_eq, hlead, List.nil_append, DiskPath.pieceSteps_eq_map, ← DiskPath.names,
    names_relativePath h]
  exact List.map_congr_left fun name hname => if_neg (h name hname).notUp

theorem fileName_relativePath {last : String} (hlast : place.getLast? = some last)
    (h : ∀ name ∈ place, IsEntryName name) :
    place.relativePath.fileName? = some last.toList := by
  have hname := h last (List.mem_of_getLast? hlast)
  refine DiskPath.fileName_of_last ?_ hname.speaks hname.notUp
  rw [allPieces_relativePath (by rintro rfl; cases hlast) h, List.getLast?_map, hlast]
  rfl

/-- Taking the last step away from names takes the last one away. -/
theorem dropStep?_names (hne : place ≠ []) (h : ∀ name ∈ place, IsEntryName name) :
    DiskPath.dropStep? (place.map String.toList) = some (place.dropLast.map String.toList) := by
  have htrim : ∀ names : List String, (∀ name ∈ names, IsEntryName name) →
      DiskPath.trimSilent (names.map String.toList) = names.map String.toList := by
    intro names h
    rcases List.eq_nil_or_concat names with rfl | ⟨front, last, rfl⟩
    · rfl
    · have hspeaks := (h last (by simp)).speaks
      rw [List.concat_eq_append, List.map_append, List.map_cons, List.map_nil,
        DiskPath.trimSilent, List.reverse_concat, List.dropWhile_cons_of_neg (by simp [hspeaks]),
        ← List.reverse_concat, List.reverse_reverse]
  obtain ⟨first, rest, rfl⟩ := List.exists_cons_of_ne_nil hne
  rw [DiskPath.dropStep?, htrim _ h]
  simp only [List.map_cons]
  rw [← List.map_cons, ← List.map_dropLast,
    htrim _ fun name hmem => h name ((List.dropLast_sublist _).subset hmem)]

/-- The path of the directory that an entry stands in. -/
theorem parent_relativePath (hne : place ≠ []) (h : ∀ name ∈ place, IsEntryName name) :
    place.relativePath.parent? = some (relativePath place.dropLast) := by
  obtain ⟨first, rest, rfl⟩ := List.exists_cons_of_ne_nil hne
  have hrooted := isRooted_relativePath h
  have hpieces : (relativePath (first :: rest)).allPieces =
      first.toList :: rest.map String.toList :=
    allPieces_relativePath hne h
  cases rest with
  | nil =>
    have hfirst : first.toList.isEmpty = false := by
      rw [List.isEmpty_eq_false_iff]
      intro hempty
      have hspeaks := (h first List.mem_cons_self).speaks
      rw [hempty] at hspeaks
      cases hspeaks
    exact DiskPath.parent?_of_first hrooted hpieces rfl hfirst
  | cons second more =>
    have hdrop := dropStep?_names (List.cons_ne_nil second more)
      fun name hmem => h name (List.mem_cons_of_mem _ hmem)
    exact DiskPath.parent?_of_dropStep hrooted hpieces hdrop

end Place

end TypedRoutes
