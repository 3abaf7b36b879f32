import TypedRoutes.Proofs.Disk.Changes

/-!
# Volumes that agree on the way

A request looks at nothing but the places on the way to its path. On two volumes that agree there it
is answered alike, and they still agree afterwards.
-/

namespace TypedRoutes

namespace Volume

/-- Two volumes agree on some places, and relative paths start from the same directory. -/
structure Agree (seen : Place → Prop) (volume other : Volume) : Prop where
  home : other.home = volume.home
  node {place : Place} : seen place → other.node? place = volume.node? place

/-- Both requests are refused for the same reason, or the volumes that they make agree. -/
inductive AgreeResult (seen : Place → Prop) :
    Except DiskProblem Volume → Except DiskProblem Volume → Prop
  | refused (problem : DiskProblem) : AgreeResult seen (.error problem) (.error problem)
  | made {volume other : Volume} : volume.Agree seen other →
      AgreeResult seen (.ok volume) (.ok other)

section Agree

variable {seen : Place → Prop}
    (hseen : ∀ {above place : Place}, above <+: place → seen place → seen above)
  {volume other : Volume} (h : volume.Agree seen other)

include hseen h

/-- Steps that are seen are followed alike. -/
theorem Agree.foldlM_follow {segments : List (List Char)} {start : Place}
    (hup : ['.', '.'] ∉ segments) (htarget : seen (start ++ namesOf segments)) :
    segments.foldlM other.follow start = segments.foldlM volume.follow start := by
  induction segments generalizing start with
  | nil => rfl
  | cons piece rest ih =>
    obtain ⟨hpiece, hrest⟩ := not_or.mp (List.mem_cons.not.mp hup)
    rw [namesOf_cons, ← List.append_assoc] at htarget
    have hfollow : other.follow start piece = volume.follow start piece := by
      rw [follow, follow, h.node (hseen ((List.prefix_append _ _).trans (List.prefix_append _ _))
        htarget)]
    rw [List.foldlM_cons, List.foldlM_cons, hfollow]
    cases hnext : volume.follow start piece with
    | error problem => rfl
    | ok next =>
      obtain ⟨-, -, rfl⟩ := (follow_eq_ok_iff (Ne.symm hpiece)).mp hnext
      exact ih hrest htarget

/-- A path to a place that is seen is located alike. -/
theorem Agree.locate {path : DiskPath} (hup : path.NeverUp) (htarget : seen (volume.target path)) :
    other.locate path = volume.locate path := by
  cases hflaw : path.flaw? with
  | some problem => simp only [Volume.locate, hflaw]
  | none =>
    rw [locate_eq hflaw, locate_eq hflaw, start, start, h.home]
    exact h.foldlM_follow hseen hup htarget

/-- A file at a place that is seen is read alike. -/
theorem Agree.read {path : DiskPath} (hup : path.NeverUp) (htarget : seen (volume.target path)) :
    other.read path = volume.read path := by
  rw [Volume.read, Volume.read, h.locate hseen hup htarget]
  cases hplace : volume.locate path with
  | error problem => rfl
  | ok place =>
    obtain rfl := target_of_locate hup hplace
    rw [except_ok_bind, except_ok_bind, h.node htarget]

/-- Whether something stands at such a place is told alike. -/
theorem Agree.nodeAt? {path : DiskPath} (hup : path.NeverUp)
    (htarget : seen (volume.target path)) : other.nodeAt? path = volume.nodeAt? path := by
  rw [Volume.nodeAt?, Volume.nodeAt?, h.locate hseen hup htarget]
  cases hplace : volume.locate path with
  | error problem => rfl
  | ok place =>
    obtain rfl := target_of_locate hup hplace
    exact h.node htarget

/-- Such a place is approached alike. -/
theorem Agree.approach {path : DiskPath} (hup : path.NeverUp)
    (htarget : seen (volume.target path)) : other.approach path = volume.approach path := by
  have horigin : other.origin path = volume.origin path := by rw [origin, origin, h.home]
  rw [Volume.approach, Volume.approach, horigin]
  cases path.flaw? with
  | some problem => rfl
  | none =>
    change ((volume.steppedPieces path).dropLast.foldlM other.follow (volume.origin path).1 >>= _) =
      (volume.steppedPieces path).dropLast.foldlM volume.follow (volume.origin path).1 >>= _
    have hfront : (volume.start path) ++ namesOf (volume.steppedPieces path).dropLast <+:
        volume.target path := by
      rw [target, List.prefix_append_right_inj, ← volume.namesOf_steppedPieces]
      exact namesOf_prefix (List.dropLast_prefix _)
    have hfrontUp : ['.', '.'] ∉ (volume.steppedPieces path).dropLast := fun hmem =>
      not_up_steppedPieces hup ((List.dropLast_sublist _).subset hmem)
    rw [(volume.origin_cases path).1, h.foldlM_follow hseen hfrontUp (hseen hfront htarget)]
    cases hfolder : (volume.steppedPieces path).dropLast.foldlM volume.follow
        (volume.start path) with
    | error problem => rfl
    | ok folder =>
      obtain rfl := target_of_foldlM hfrontUp hfolder
      rw [except_ok_bind, except_ok_bind, follow, follow, h.node (hseen hfront htarget)]

/-- Such a place admits an entry alike. -/
theorem Agree.admits_iff {place : Place} (hplace : seen place) :
    other.admits place ↔ volume.admits place := by
  rw [admits, admits, h.node (hseen (List.dropLast_prefix place) hplace)]

/-- After the same file is written, the volumes agree as before. -/
theorem Agree.put {place : Place} (hplace : seen place) (content : String) :
    (volume.putFile place content).Agree seen (other.putFile place content) where
  home := by rw [home_putFile, home_putFile, h.home]
  node {found} hfound := by
    have hcondition : (other.admits place ∧ other.node? place ≠ some .directory) ↔
        (volume.admits place ∧ volume.node? place ≠ some .directory) := by
      rw [h.admits_iff hseen hplace, h.node hplace]
    rw [putFile, putFile]
    split
    · rename_i hadmitted
      rw [dif_pos (hcondition.mp hadmitted), node?_put, node?_put, h.node hfound]
    · rename_i hadmitted
      rw [dif_neg fun hvolume => hadmitted (hcondition.mpr hvolume), h.node hfound]

/-- After the same directory is made, they do. -/
theorem Agree.add {place : Place} (hplace : seen place) :
    (volume.addDirectory place).Agree seen (other.addDirectory place) where
  home := by rw [home_addDirectory, home_addDirectory, h.home]
  node {found} hfound := by
    have hcondition : (other.admits place ∧ other.node? place = none) ↔
        (volume.admits place ∧ volume.node? place = none) := by
      rw [h.admits_iff hseen hplace, h.node hplace]
    rw [addDirectory, addDirectory]
    split
    · rename_i hadmitted
      rw [dif_pos (hcondition.mp hadmitted), node?_put, node?_put, h.node hfound]
    · rename_i hadmitted
      rw [dif_neg fun hvolume => hadmitted (hcondition.mpr hvolume), h.node hfound]

/-- The last step of a path leads to the same place in both volumes. -/
theorem Agree.lastStep {path : DiskPath} (hup : path.NeverUp) (htarget : seen (volume.target path))
    {folder : Place} {piece : List Char}
    (happroach : volume.approach path = .ok (folder, some piece)) :
    other.follow folder piece = volume.follow folder piece ∧
      ∀ {place : Place}, volume.follow folder piece = .ok place → place = volume.target path := by
  obtain ⟨-, -, hfold, hlast⟩ := approach_eq_ok happroach
  obtain ⟨front, hfront⟩ := List.getLast?_eq_some_iff.mp hlast.symm
  rw [hfront, List.dropLast_concat] at hfold
  have hsteppedUp : ['.', '.'] ∉ volume.steppedPieces path := not_up_steppedPieces hup
  rw [hfront] at hsteppedUp
  have hfolder := target_of_foldlM (fun hmem => hsteppedUp (List.mem_append_left _ hmem)) hfold
  have hbegins : folder <+: volume.target path := by
    rw [hfolder, target, List.prefix_append_right_inj, ← volume.namesOf_steppedPieces,
      hfront]
    exact namesOf_prefix (List.prefix_append _ _)
  refine ⟨by rw [follow, follow, h.node (hseen hbegins htarget)], fun {place} hplace => ?_⟩
  have := target_of_foldlM hsteppedUp (foldlM_follow_concat.mpr ⟨folder, hfold, hplace⟩)
  rw [this, ← hfront, namesOf_steppedPieces, target]

/-- A write has the same result on both. -/
theorem Agree.write {path : DiskPath} (hup : path.NeverUp) (htarget : seen (volume.target path))
    (content : String) :
    AgreeResult seen (volume.write path content) (other.write path content) := by
  rw [Volume.write, Volume.write, h.approach hseen hup htarget]
  cases happroach : volume.approach path with
  | error problem => exact .refused problem
  | ok found =>
    obtain ⟨folder, last?⟩ := found
    rw [except_ok_bind, except_ok_bind]
    cases hpiece : last? with
    | none => exact .refused _
    | some piece =>
      obtain ⟨hfollow, hreached⟩ := h.lastStep hseen hup htarget (hpiece ▸ happroach)
      simp only [hfollow]
      split
      · exact .refused _
      · cases hplace : volume.follow folder piece with
        | error problem => exact .refused problem
        | ok place =>
          obtain rfl := hreached hplace
          rw [except_ok_bind, except_ok_bind, h.node htarget]
          split
          · exact .refused _
          · exact .made (h.put hseen htarget content)

/-- A directory is made with the same result. -/
theorem Agree.makeDirectory {path : DiskPath} (hup : path.NeverUp)
    (htarget : seen (volume.target path)) :
    AgreeResult seen (volume.makeDirectory path) (other.makeDirectory path) := by
  rw [Volume.makeDirectory, Volume.makeDirectory, h.approach hseen hup htarget]
  cases happroach : volume.approach path with
  | error problem => exact .refused problem
  | ok found =>
    obtain ⟨folder, last?⟩ := found
    rw [except_ok_bind, except_ok_bind]
    cases hpiece : last? with
    | none => exact .refused _
    | some piece =>
      obtain ⟨hfollow, hreached⟩ := h.lastStep hseen hup htarget (hpiece ▸ happroach)
      simp only [hfollow]
      cases hplace : volume.follow folder piece with
      | error problem => exact .refused problem
      | ok place =>
        obtain rfl := hreached hplace
        rw [except_ok_bind, except_ok_bind, h.node htarget]
        split
        · exact .refused _
        · exact .made (h.add hseen htarget)

/-- A directory is ensured with the same result. -/
theorem Agree.ensureDirectory {path : DiskPath} (hup : path.NeverUp)
    (htarget : seen (volume.target path)) :
    AgreeResult seen (volume.ensureDirectory path) (other.ensureDirectory path) := by
  rw [Volume.ensureDirectory, Volume.ensureDirectory, h.nodeAt? hseen hup htarget]
  have hmakes := h.makeDirectory hseen hup htarget
  generalize volume.makeDirectory path = answer, other.makeDirectory path = answer' at hmakes
  cases hmakes with
  | made hmade => exact .made hmade
  | refused problem =>
    cases problem with
    | taken =>
      simp only
      split
      · exact .made h
      · exact .refused _
    | _ => exact .refused _

/-- So are several directories. -/
theorem Agree.ensureAlong {paths : List DiskPath} (hup : ∀ path ∈ paths, path.NeverUp)
    (htargets : ∀ path ∈ paths, seen (volume.target path)) :
    (other.ensureAlong paths).2 = (volume.ensureAlong paths).2 ∧
      (volume.ensureAlong paths).1.Agree seen (other.ensureAlong paths).1 := by
  induction paths generalizing volume other with
  | nil => exact ⟨rfl, h⟩
  | cons path above ih =>
    have hpath : path.NeverUp := hup path List.mem_cons_self
    have hensures : ∀ {volume other : Volume}, volume.Agree seen other →
        seen (volume.target path) →
          AgreeResult seen (volume.ensureDirectory path) (other.ensureDirectory path) :=
      fun h htarget => h.ensureDirectory hseen hpath htarget
    have hfirst := hensures h (htargets path List.mem_cons_self)
    obtain ⟨hanswer, hvolumes⟩ := ih h (fun other hmem => hup other (List.mem_cons_of_mem _ hmem))
      fun other hmem => htargets other (List.mem_cons_of_mem _ hmem)
    have habove : (volume.ensureAlong above).1.home = volume.home :=
      (ensureAlong_becomes fun other hmem => hup other (List.mem_cons_of_mem _ hmem)).home
    rw [Volume.ensureAlong, Volume.ensureAlong]
    generalize volume.ensureDirectory path = answer, other.ensureDirectory path = answer' at hfirst
    cases hfirst with
    | made hmade => exact ⟨rfl, hmade⟩
    | refused problem =>
      cases problem with
      | missing =>
        generalize volume.ensureAlong above = made, other.ensureAlong above = made'
          at hanswer hvolumes habove
        obtain ⟨volume₁, result⟩ := made
        obtain ⟨other₁, result'⟩ := made'
        simp only at hanswer hvolumes habove
        subst hanswer
        cases result' with
        | error problem => exact ⟨rfl, hvolumes⟩
        | ok =>
          have hagain := hensures hvolumes
            (target_congr habove path ▸ htargets path List.mem_cons_self)
          simp only
          generalize volume₁.ensureDirectory path = answer, other₁.ensureDirectory path = answer'
            at hagain
          cases hagain with
          | made hmade => exact ⟨rfl, hmade⟩
          | refused problem => exact ⟨rfl, hvolumes⟩
      | _ => exact ⟨rfl, h⟩

/-- Making directories on the way to a path is answered alike. -/
theorem Agree.makeDirectories {path : DiskPath} (hup : path.NeverUp)
    (htarget : seen (volume.target path)) :
    (other.makeDirectories path).2 = (volume.makeDirectories path).2 ∧
      (volume.makeDirectories path).1.Agree seen (other.makeDirectories path).1 := by
  have habove : ∀ above ∈ path.prefixes, above.IsAbove path :=
    fun above h => DiskPath.isAbove_of_mem_prefixesWithin h
  exact h.ensureAlong hseen (fun above hmem => (habove above hmem).neverUp hup)
    fun above hmem => hseen (target_isAbove (habove above hmem)) htarget

end Agree

end Volume

end TypedRoutes
