import TypedRoutes.Proofs.Disk.Places

/-!
# What requests change

A request on a volume gives some files their content and makes some missing directories; everything
else stays as it is, and no directory is ever lost. Requests one after the other are again such a
change, and what a path led to it still leads to.
-/

namespace TypedRoutes

namespace Volume

variable {before middle after : Volume}

/-! ## Changes -/

/-- One volume comes from another by giving files of one kind their content, and by making missing
directories of another kind. Names that entries have are still names that entries can have. -/
structure Becomes (files : Place → String → Prop) (folders : Place → Prop)
    (before after : Volume) : Prop where
  home : after.home = before.home
  named : before.IsNamed → after.IsNamed
  node (place : Place) : after.node? place = before.node? place ∨
    (∃ content, files place content ∧ before.node? place ≠ some .directory ∧
      after.node? place = some (.file content)) ∨
    (folders place ∧ before.node? place = none ∧ after.node? place = some .directory)

section Becomes

variable {files files' : Place → String → Prop} {folders folders' : Place → Prop}

/-- A volume that stays as it is becomes itself. -/
theorem Becomes.refl (volume : Volume) : volume.Becomes files folders volume :=
  ⟨rfl, id, fun _ => .inl rfl⟩

/-- More may change than does. -/
theorem Becomes.mono (h : before.Becomes files folders after)
    (hfiles : ∀ place content, files place content → files' place content)
    (hfolders : ∀ place, folders place → folders' place) :
    before.Becomes files' folders' after where
  home := h.home
  named := h.named
  node place := by
    rcases h.node place with hsame | ⟨content, hfile, hfree, hafter⟩ | ⟨hfolder, hnone, hafter⟩
    · exact .inl hsame
    · exact .inr (.inl ⟨content, hfiles place content hfile, hfree, hafter⟩)
    · exact .inr (.inr ⟨hfolders place hfolder, hnone, hafter⟩)

/-- Changes one after the other. -/
theorem Becomes.trans (h : before.Becomes files folders middle)
    (h' : middle.Becomes files folders after) : before.Becomes files folders after where
  home := h'.home.trans h.home
  named hnamed := h'.named (h.named hnamed)
  node place := by
    rcases h'.node place with hsame | ⟨content, hfile, hfree, hafter⟩ | ⟨hfolder, hnone, hafter⟩
    · rw [hsame]
      exact h.node place
    · refine .inr (.inl ⟨content, hfile, fun hdirectory => hfree ?_, hafter⟩)
      rcases h.node place with hsame | ⟨_, _, hfree', _⟩ | ⟨_, hnone, _⟩
      · rw [hsame, hdirectory]
      · exact absurd hdirectory hfree'
      · rw [hnone] at hdirectory
        cases hdirectory
    · refine .inr (.inr ⟨hfolder, ?_, hafter⟩)
      rcases h.node place with hsame | ⟨_, _, _, hfile⟩ | ⟨_, _, hdirectory⟩
      · rw [← hsame, hnone]
      · rw [hfile] at hnone
        cases hnone
      · rw [hdirectory] at hnone
        cases hnone

/-- No directory is lost. -/
theorem Becomes.directory (h : before.Becomes files folders after) {place : Place}
    (hnode : before.node? place = some .directory) : after.node? place = some .directory := by
  rcases h.node place with hsame | ⟨_, _, hfree, _⟩ | ⟨_, hnone, _⟩
  · rw [hsame, hnode]
  · exact absurd hnode hfree
  · rw [hnone] at hnode
    cases hnode

/-- A file that is not one of those that are given their content is the same as before. -/
theorem Becomes.file_iff (h : before.Becomes files folders after) {place : Place}
    (hplace : ∀ content, ¬ files place content) (content : ByteText) :
    after.node? place = some (.file content) ↔ before.node? place = some (.file content) := by
  rcases h.node place with hsame | ⟨content, hfile, _⟩ | ⟨_, hnone, hafter⟩
  · rw [hsame]
  · exact absurd hfile (hplace content)
  · simp [hnone, hafter]

end Becomes

/-! ## Paths in a volume that has become another -/

section Kept

variable (hhome : after.home = before.home)
  (hkept : ∀ place, before.node? place = some .directory → after.node? place = some .directory)

include hkept

/-- A step that leads somewhere still does after a change. -/
theorem follow_kept {place target : Place} {piece : List Char}
    (h : before.follow place piece = .ok target) : after.follow place piece = .ok target := by
  rw [follow] at h ⊢
  split at h
  · cases h
  · cases h
  · rename_i hdirectory
    rw [hkept place hdirectory]
    exact h

/-- So do several steps. -/
theorem foldlM_follow_kept {segments : List (List Char)} {place target : Place}
    (h : segments.foldlM before.follow place = .ok target) :
    segments.foldlM after.follow place = .ok target := by
  induction segments generalizing place with
  | nil => exact h
  | cons piece rest ih =>
    rw [List.foldlM_cons, except_bind_eq_ok] at h ⊢
    obtain ⟨next, hfollow, hrest⟩ := h
    exact ⟨next, follow_kept hkept hfollow, ih hrest⟩

include hhome

/-- A path leads where it led. -/
theorem locate_kept {path : DiskPath} {place : Place} (h : before.locate path = .ok place) :
    after.locate path = .ok place := by
  cases hflaw : path.flaw? with
  | some problem =>
    rw [locate, hflaw] at h
    cases h
  | none =>
    rw [locate_eq hflaw] at h ⊢
    rw [start, hhome]
    exact foldlM_follow_kept hkept h

end Kept

/-- A path that is located is still located after a change. -/
theorem Becomes.locate {files : Place → String → Prop} {folders : Place → Prop}
    (h : before.Becomes files folders after) {path : DiskPath} {place : Place}
    (hlocate : before.locate path = .ok place) : after.locate path = .ok place :=
  locate_kept h.home (fun _ => h.directory) hlocate

variable {volume : Volume}

/-- Contents are decoded if they are a text. -/
@[simp] theorem decode_eq_ok_iff {content : ByteText} {text : String} :
    content.decode = .ok text ↔ content = .text text := by
  cases content <;> simp [ByteText.decode]

/-- A path reads as a text if it leads to a file that holds the text. -/
theorem read_eq_ok_iff {path : DiskPath} {content : String} :
    volume.read path = .ok content ↔
      ∃ place, volume.locate path = .ok place ∧ volume.node? place = some (.file content) := by
  rw [read, except_bind_eq_ok]
  refine exists_congr fun place => and_congr_right fun _ => ?_
  cases volume.node? place with
  | none => simp
  | some node => cases node <;> simp

/-- A file that is not given a content keeps the one it has. -/
theorem Becomes.read {files : Place → String → Prop} {folders : Place → Prop}
    (h : before.Becomes files folders after) {path : DiskPath} {content : String}
    (hread : before.read path = .ok content)
    (hkept : ∀ place, before.locate path = .ok place → ∀ text, ¬ files place text) :
    after.read path = .ok content := by
  obtain ⟨place, hlocate, hnode⟩ := read_eq_ok_iff.mp hread
  exact read_eq_ok_iff.mpr
    ⟨place, h.locate hlocate, (h.file_iff (hkept place hlocate) content).mpr hnode⟩

/-! ## Requests -/

/-- A volume stays one of names when something is put where names lead. -/
theorem IsNamed.put {volume : Volume} {place : Place} {node : DiskNode}
    {admitted : volume.admits place} {free : volume.node? place ≠ some .directory}
    (h : volume.IsNamed) (hplace : ∀ name ∈ place, IsEntryName name) :
    (volume.put place node admitted free).IsNamed := by
  intro entry hentry
  rcases List.mem_cons.mp hentry with rfl | hother
  · exact hplace
  · exact h entry (List.mem_filter.mp hother).1

/-- Making a directory makes that directory and nothing else. -/
theorem addDirectory_becomes {place : Place}
    (hnames : volume.IsNamed → ∀ name ∈ place, IsEntryName name) :
    volume.Becomes (fun _ _ => False) (· = place) (volume.addDirectory place) where
  home := home_addDirectory place
  named hnamed := by
    rw [addDirectory]
    split
    · exact hnamed.put (hnames hnamed)
    · exact hnamed
  node other := by
    rw [addDirectory]
    split
    · rename_i h
      rw [node?_put]
      split
      · rename_i heq
        exact .inr (.inr ⟨heq, heq ▸ h.2, rfl⟩)
      · exact .inl rfl
    · exact .inl rfl

/-- Putting a file gives that file its content and changes nothing else. -/
theorem putFile_becomes {place : Place} (content : String)
    (hnames : volume.IsNamed → ∀ name ∈ place, IsEntryName name) :
    volume.Becomes (fun other text => other = place ∧ text = content) (fun _ => False)
      (volume.putFile place content) where
  home := home_putFile place content
  named hnamed := by
    rw [putFile]
    split
    · exact hnamed.put (hnames hnamed)
    · exact hnamed
  node other := by
    rw [putFile]
    split
    · rename_i h
      rw [node?_put]
      split
      · rename_i heq
        exact .inr (.inl ⟨content, ⟨heq, rfl⟩, heq ▸ h.2, rfl⟩)
      · exact .inl rfl
    · exact .inl rfl

/-- A file that is put in a directory, in place of no other directory, is there. -/
theorem node?_putFile {place : Place} {content : String} (hadmits : volume.admits place)
    (hfree : volume.node? place ≠ some .directory) :
    (volume.putFile place content).node? place = some (.file content) := by
  rw [putFile, dif_pos ⟨hadmits, hfree⟩, node?_put, if_pos rfl]

/-- The pieces of a path from its start, without empty ones at their end. -/
def steppedPieces (volume : Volume) (path : DiskPath) : List (List Char) :=
  ((volume.origin path).2.reverse.dropWhile List.isEmpty).reverse

/-- The pieces that are stepped along name the steps of the path. -/
theorem namesOf_steppedPieces (volume : Volume) (path : DiskPath) :
    namesOf (volume.steppedPieces path) = path.names := by
  rw [steppedPieces, namesOf_trimmed, namesOf_origin]
  intro piece hpiece
  rw [List.isEmpty_iff.mp hpiece]
  rfl

/-- No such piece goes up if the path never does. -/
theorem not_up_steppedPieces {path : DiskPath} (hup : path.NeverUp) :
    ['.', '.'] ∉ volume.steppedPieces path :=
  fun hmem => not_up_origin hup (mem_of_mem_trimmed hmem)

/-- Nothing is taken away from a path that does not end with a slash. -/
theorem steppedPieces_eq {path : DiskPath} (hne : path.chars ≠ [])
    (hlast : path.chars.getLast? ≠ some '/') :
    volume.steppedPieces path = (volume.origin path).2 := by
  obtain ⟨front, last, hconcat⟩ :=
    (List.eq_nil_or_concat (volume.origin path).2).resolve_left (origin_ne_nil path)
  rw [List.concat_eq_append] at hconcat
  have hspeaks : last.isEmpty = false := by
    rw [Bool.eq_false_iff]
    intro hempty
    rw [List.isEmpty_iff] at hempty
    have hall : path.allPieces.getLast? = some [] := by
      rcases (volume.origin_cases path).2 with h | ⟨-, h⟩
      · simp [h, hconcat, hempty]
      · rw [h, hconcat, hempty, ← List.cons_append, List.getLast?_concat]
    exact (eq_nil_or_of_last_piece hall).elim hne hlast
  rw [steppedPieces, hconcat, List.reverse_concat, List.dropWhile_cons_of_neg (by simp [hspeaks]),
    ← List.reverse_concat, List.reverse_reverse]

/-- The last step of a path is taken from a directory that the pieces in front of it lead to. -/
theorem approach_eq_ok {path : DiskPath} {folder : Place} {last? : Option (List Char)}
    (h : volume.approach path = .ok (folder, last?)) :
    path.flaw? = none ∧ volume.node? folder = some .directory ∧
      (volume.steppedPieces path).dropLast.foldlM volume.follow (volume.start path) = .ok folder ∧
        last? = (volume.steppedPieces path).getLast? := by
  rw [approach] at h
  split at h
  · cases h
  · rename_i hflaw
    rw [except_bind_eq_ok] at h
    obtain ⟨reached, hreached, h⟩ := h
    rw [except_bind_eq_ok] at h
    obtain ⟨stayed, hstayed, h⟩ := h
    obtain ⟨hdirectory, rfl⟩ := follow_nil_eq_ok.mp hstayed
    obtain ⟨rfl, rfl⟩ := Prod.mk.inj (Except.ok.inj h)
    rw [(volume.origin_cases path).1] at hreached
    exact ⟨hflaw, hdirectory, hreached, rfl⟩

/-- The pieces of a path that can be looked up hold neither slashes nor zero characters. -/
theorem plain_steppedPieces {path : DiskPath} (hflaw : path.flaw? = none) {piece : List Char}
    (hmem : piece ∈ volume.steppedPieces path) : '/' ∉ piece ∧ '\x00' ∉ piece := by
  have horigin : piece ∈ (volume.origin path).2 := mem_of_mem_trimmed hmem
  have hpiece : piece ∈ path.allPieces := by
    rcases (volume.origin_cases path).2 with h | ⟨-, h⟩
    · exact h ▸ horigin
    · exact h ▸ List.mem_cons_of_mem _ horigin
  refine ⟨not_mem_piece piece hpiece, fun hzero => ?_⟩
  have hchars := subset_of_mem_pieces hpiece hzero
  simp [DiskPath.flaw?, hchars] at hflaw

/-- A last step from a directory leads to a place whose names entries can have. -/
theorem IsNamed.names_of_last {path : DiskPath} {folder place : Place} {piece : List Char}
    (h : volume.IsNamed) (hflaw : path.flaw? = none)
    (hlast : (volume.steppedPieces path).getLast? = some piece)
    (hfollow : volume.follow folder piece = .ok place) : ∀ name ∈ place, IsEntryName name := by
  obtain ⟨hslash, hzero⟩ := plain_steppedPieces hflaw (List.mem_of_getLast? hlast)
  rw [follow] at hfollow
  split at hfollow
  · cases hfollow
  · cases hfollow
  · rename_i hdirectory
    have hfolder := h.names hdirectory
    split at hfollow
    · rwa [← Except.ok.inj hfollow]
    · rename_i hspeaks
      split at hfollow
      · rw [← Except.ok.inj hfollow]
        exact fun name hmem => hfolder name ((List.dropLast_sublist folder).subset hmem)
      · rename_i hup
        split at hfollow
        · cases hfollow
        · rename_i hshort
          rw [← Except.ok.inj hfollow]
          intro name hmem
          rcases List.mem_append.mp hmem with hmem | hmem
          · exact hfolder name hmem
          · rw [List.mem_singleton.mp hmem]
            constructor <;> rw [String.toList_ofList]
            · exact Bool.eq_false_iff.mpr hspeaks
            · exact hup
            · exact hslash
            · exact hzero
            · exact Nat.le_of_not_lt hshort

/-- What a last step leads to, unless it stays in its directory, stands right in it. -/
theorem admits_of_follow {folder place : Place} {piece : List Char} (hup : piece ≠ ['.', '.'])
    (hdirectory : volume.node? folder = some .directory)
    (hfollow : volume.follow folder piece = .ok place)
    (hfree : volume.node? place ≠ some .directory) : volume.admits place := by
  obtain ⟨-, -, hplace⟩ := (follow_eq_ok_iff hup).mp hfollow
  cases hsilent : isSilent piece with
  | true =>
    rw [hplace, namesOf_silent hsilent, List.append_nil] at hfree
    exact absurd hdirectory hfree
  | false =>
    rw [namesOf_name hsilent] at hplace
    refine ⟨by simp [hplace], ?_⟩
    rw [hplace, List.dropLast_concat]
    exact hdirectory

/-- A file is written to the place that its path leads to, in a directory. -/
theorem write_eq_ok {path : DiskPath} {content : String} (hup : path.NeverUp)
    (h : volume.write path content = .ok after) :
    path.chars.getLast? ≠ some '/' ∧ volume.locate path = .ok (volume.target path) ∧
      volume.admits (volume.target path) ∧ volume.node? (volume.target path) ≠ some .directory ∧
        (volume.IsNamed → ∀ name ∈ volume.target path, IsEntryName name) ∧
          after = volume.putFile (volume.target path) content := by
  rw [write, except_bind_eq_ok] at h
  obtain ⟨⟨folder, last?⟩, happroach, h⟩ := h
  obtain ⟨hflaw, hdirectory, hfold, hlast⟩ := approach_eq_ok happroach
  cases hpiece : last? with
  | none =>
    rw [hpiece] at h
    cases h
  | some piece =>
    rw [hpiece] at h hlast
    by_cases hslash : path.chars.getLast? = some '/'
    · simp [hslash] at h
    · have hbeq : (path.chars.getLast? == some '/') = false := by simpa using hslash
      simp only [hbeq, Bool.false_eq_true, if_false, except_bind_eq_ok] at h
      obtain ⟨place, hfollow, h⟩ := h
      have hfree : volume.node? place ≠ some .directory := by
        intro hnode
        simp [hnode] at h
      have hafter : volume.putFile place content = after := by
        simpa [hfree] using h
      have hne : path.chars ≠ [] := by
        intro hnil
        simp [DiskPath.flaw?, hnil] at hflaw
      have hlocate : volume.locate path = .ok place := by
        rw [steppedPieces_eq hne hslash] at hfold hlast
        obtain ⟨front, hfront⟩ := List.getLast?_eq_some_iff.mp hlast.symm
        rw [hfront, List.dropLast_concat] at hfold
        rw [locate, hflaw]
        simp only [(volume.origin_cases path).1]
        rw [hfront]
        exact foldlM_follow_concat.mpr ⟨folder, hfold, hfollow⟩
      have hpieceUp : piece ≠ ['.', '.'] := by
        rintro rfl
        exact not_up_steppedPieces hup (List.mem_of_getLast? hlast.symm)
      obtain rfl := target_of_locate hup hlocate
      exact ⟨hslash, hlocate, admits_of_follow hpieceUp hdirectory hfollow hfree, hfree,
        fun hnamed => hnamed.names_of_last hflaw hlast.symm hfollow, hafter.symm⟩

/-- A write changes the file that it writes. -/
theorem write_becomes {path : DiskPath} {content : String} (hup : path.NeverUp)
    (h : volume.write path content = .ok after) :
    volume.Becomes (fun place text => place = volume.target path ∧ text = content)
      (fun _ => False) after := by
  obtain ⟨-, -, -, -, hnames, rfl⟩ := write_eq_ok hup h
  exact putFile_becomes content hnames

/-- What was written is read back. -/
theorem read_of_write {path : DiskPath} {content : String} (hup : path.NeverUp)
    (h : volume.write path content = .ok after) : after.read path = .ok content := by
  have hbecomes := write_becomes hup h
  obtain ⟨-, hlocate, hadmits, hfree, -, rfl⟩ := write_eq_ok hup h
  exact read_eq_ok_iff.mpr ⟨_, hbecomes.locate hlocate, node?_putFile hadmits hfree⟩

/-- A directory is made at the place that its path leads to. -/
theorem makeDirectory_eq_ok {path : DiskPath} (hup : path.NeverUp)
    (h : volume.makeDirectory path = .ok after) :
    (volume.IsNamed → ∀ name ∈ volume.target path, IsEntryName name) ∧
      after = volume.addDirectory (volume.target path) := by
  rw [makeDirectory, except_bind_eq_ok] at h
  obtain ⟨⟨folder, last?⟩, happroach, h⟩ := h
  obtain ⟨hflaw, -, hfold, hlast⟩ := approach_eq_ok happroach
  cases hpiece : last? with
  | none =>
    rw [hpiece] at h
    cases h
  | some piece =>
    rw [hpiece] at h hlast
    simp only [except_bind_eq_ok] at h
    obtain ⟨place, hfollow, h⟩ := h
    split at h
    · cases h
    · obtain ⟨front, hfront⟩ := List.getLast?_eq_some_iff.mp hlast.symm
      rw [hfront, List.dropLast_concat] at hfold
      have hplace := target_of_foldlM (hfront ▸ not_up_steppedPieces hup)
        (foldlM_follow_concat.mpr ⟨folder, hfold, hfollow⟩)
      rw [← hfront, namesOf_steppedPieces] at hplace
      rw [target, ← hplace]
      exact ⟨fun hnamed => hnamed.names_of_last hflaw hlast.symm hfollow,
        (Except.ok.inj h).symm⟩

/-- To ensure a directory makes at most that directory. -/
theorem ensureDirectory_becomes {path : DiskPath} (hup : path.NeverUp)
    (h : volume.ensureDirectory path = .ok after) :
    volume.Becomes (fun _ _ => False) (· = volume.target path) after := by
  rw [ensureDirectory] at h
  split at h
  · split at h
    · rw [← Except.ok.inj h]
      exact .refl volume
    · cases h
  · obtain ⟨hnames, rfl⟩ := makeDirectory_eq_ok hup h
    exact addDirectory_becomes hnames

/-- Directories are made along the given paths only. -/
theorem ensureAlong_becomes {paths : List DiskPath} (hup : ∀ path ∈ paths, path.NeverUp) :
    volume.Becomes (fun _ _ => False) (fun place => ∃ path ∈ paths, place = volume.target path)
      (volume.ensureAlong paths).1 := by
  induction paths generalizing volume with
  | nil => exact .refl volume
  | cons path above ih =>
    have hpath : path.NeverUp := hup path List.mem_cons_self
    have habove : volume.Becomes _ _ (volume.ensureAlong above).1 :=
      ih fun other h => hup other (List.mem_cons_of_mem _ h)
    have hall : volume.Becomes (fun _ _ => False)
        (fun place => ∃ other ∈ path :: above, place = volume.target other)
        (volume.ensureAlong above).1 :=
      habove.mono (fun _ _ h => h) fun place ⟨other, hmem, hplace⟩ =>
        ⟨other, List.mem_cons_of_mem _ hmem, hplace⟩
    have hself : ∀ {first next : Volume}, first.home = volume.home →
        first.ensureDirectory path = .ok next → first.Becomes (fun _ _ => False)
          (fun place => ∃ other ∈ path :: above, place = volume.target other) next :=
      fun hhome h => (ensureDirectory_becomes hpath h).mono (fun _ _ h => h)
        fun place hplace => ⟨path, List.mem_cons_self, by rw [hplace, target_congr hhome]⟩
    rw [ensureAlong]
    split
    · rename_i made hmade
      exact hself rfl hmade
    · split
      · rename_i made problem hmade
        rw [hmade] at hall
        exact hall
      · rename_i made hmade
        rw [hmade] at hall
        split
        · rename_i next hnext
          exact hall.trans (hself hall.home hnext)
        · exact hall
    · exact .refl volume

/-- Making directories on the way to a path makes missing directories there, also when it fails. -/
theorem makeDirectories_becomes {path : DiskPath} (hup : path.NeverUp) :
    volume.Becomes (fun _ _ => False) (fun place => place <+: volume.target path)
      (volume.makeDirectories path).1 := by
  have habove : ∀ above ∈ path.prefixes, above.IsAbove path :=
    fun above h => DiskPath.isAbove_of_mem_prefixesWithin h
  refine (ensureAlong_becomes fun above h => (habove above h).neverUp hup).mono
    (fun _ _ h => h) ?_
  rintro place ⟨above, hmem, rfl⟩
  exact target_isAbove (habove above hmem)

/-- No directory is made for the empty path. -/
theorem makeDirectories_empty {path : DiskPath} (h : path.chars = []) :
    volume.makeDirectories path = (volume, .ok ()) := by
  rw [makeDirectories, DiskPath.prefixes, h]
  rfl

end Volume

end TypedRoutes
