import TypedRoutes.Disk.Access
import TypedRoutes.Proofs.Text.Pieces
import Mathlib.Data.List.TakeWhile

/-!
# The names on a path

What the pieces of a path say is the list of its names. Joining paths appends their names, the
parent of a path has all names but the last, and a place is read back from the path that is written
for it. Paths that step up are left out here: their names do not tell where they lead.
-/

namespace TypedRoutes

@[simp] theorem namesOf_nil : namesOf [] = [] := rfl

/-- The names of pieces one behind the other. -/
@[simp] theorem namesOf_append (front back : List (List Char)) :
    namesOf (front ++ back) = namesOf front ++ namesOf back := by
  simp [namesOf]

/-- A silent piece names nothing. -/
theorem namesOf_silent {piece : List Char} (h : isSilent piece = true) : namesOf [piece] = [] := by
  simp [namesOf, h]

/-- Every other piece names itself. -/
theorem namesOf_name {piece : List Char} (h : isSilent piece = false) :
    namesOf [piece] = [String.ofList piece] := by
  simp [namesOf, h]

/-- The names of a piece and of the rest. -/
theorem namesOf_cons (piece : List Char) (rest : List (List Char)) :
    namesOf (piece :: rest) = namesOf [piece] ++ namesOf rest :=
  namesOf_append [piece] rest

/-- Pieces in front name what stands in front. -/
theorem namesOf_prefix {front segments : List (List Char)} (h : front <+: segments) :
    namesOf front <+: namesOf segments := by
  obtain ⟨back, rfl⟩ := h
  rw [namesOf_append]
  exact List.prefix_append _ _

/-- Segments behind a slash each are the pieces of their text. -/
@[simp] theorem namesOf_pieces_slashed {segments : List (List Char)}
    (h : ∀ segment ∈ segments, '/' ∉ segment) :
    namesOf (pieces '/' (slashed segments)) = namesOf segments := by
  cases segments with
  | nil => rfl
  | cons segment rest => rw [pieces_slashed (List.cons_ne_nil _ _) h]

/-- A piece that is longer than two dots is a name. -/
theorem name_of_long {piece : List Char} (h : 2 < piece.length) :
    isSilent piece = false ∧ piece ≠ ['.', '.'] := by
  constructor
  · rw [Bool.eq_false_iff]
    intro hsilent
    rcases (by simpa [isSilent] using hsilent : piece = [] ∨ piece = ['.']) with rfl | rfl <;>
      exact absurd h (by decide)
  · rintro rfl
    exact absurd h (by decide)

namespace DiskPath

/-- No piece of a path steps up. -/
def NeverUp (path : DiskPath) : Prop := ['.', '.'] ∉ path.allPieces

/-- A path starts at the root directory exactly when a slash stands in front. -/
theorem isRooted_eq_false_iff {path : DiskPath} :
    path.isRooted = false ↔ ∀ rest, path.chars ≠ '/' :: rest := by
  rw [isRooted, beq_eq_false_iff_ne]
  cases path.chars with
  | nil => simp
  | cons c rest => simp

/-- A path without a slash is not rooted. -/
theorem isRooted_eq_false_of_no_slash {path : DiskPath} (h : '/' ∉ path.chars) :
    path.isRooted = false :=
  isRooted_eq_false_iff.mpr fun rest hrest => h (by rw [hrest]; exact List.mem_cons_self)

/-! ## Joined paths -/

section Join

variable {base tail : DiskPath}

/-- What a joined path has between its slashes, but for an empty piece in the middle. -/
theorem allPieces_join (hbase : base.chars ≠ []) (htail : tail.isRooted = false) :
    ∃ front, (base.join tail).allPieces = front ++ tail.allPieces ∧
      (base.allPieces = front ∨ base.allPieces = front ++ [[]]) := by
  have hempty : base.chars.isEmpty = false := by simpa using hbase
  rw [join, htail, hempty, Bool.or_self, if_neg Bool.false_ne_true]
  split
  · rename_i hslash
    obtain ⟨front, hfront⟩ := List.getLast?_eq_some_iff.mp (by simpa using hslash)
    refine ⟨pieces '/' front, ?_, .inr ?_⟩
    · rw [allPieces, hfront, List.append_assoc, List.singleton_append, pieces_append]
      rfl
    · rw [allPieces, hfront, pieces_append]
      rfl
  · exact ⟨base.allPieces, pieces_append _ _, .inl rfl⟩

/-- A joined path has the names of both parts. -/
theorem names_join (hbase : base.chars ≠ []) (htail : tail.isRooted = false) :
    (base.join tail).names = base.names ++ tail.names := by
  obtain ⟨front, hjoin, hfront⟩ := allPieces_join hbase htail
  rw [names, names, names, hjoin, namesOf_append]
  rcases hfront with h | h <;> simp [h, namesOf, isSilent]

/-- A joined path never goes up if neither part does. -/
theorem neverUp_join (hbase : base.chars ≠ []) (htail : tail.isRooted = false)
    (hb : base.NeverUp) (ht : tail.NeverUp) : (base.join tail).NeverUp := by
  obtain ⟨front, hjoin, hfront⟩ := allPieces_join hbase htail
  rw [NeverUp, hjoin, List.mem_append]
  rintro (hmem | hmem)
  · exact hb (by rcases hfront with h | h <;> simp [h, hmem])
  · exact ht hmem

/-- A joined path is rooted where its first part is. -/
theorem isRooted_join (hbase : base.chars ≠ []) (htail : tail.isRooted = false) :
    (base.join tail).isRooted = base.isRooted := by
  have hempty : base.chars.isEmpty = false := by simpa using hbase
  rw [join, htail, hempty, Bool.or_self, if_neg Bool.false_ne_true]
  obtain ⟨c, rest, hc⟩ := List.exists_cons_of_ne_nil hbase
  split <;> simp [isRooted, hc]

/-- A joined path is not empty. -/
theorem join_ne_nil (hbase : base.chars ≠ []) (htail : tail.isRooted = false) :
    (base.join tail).chars ≠ [] := by
  have hempty : base.chars.isEmpty = false := by simpa using hbase
  rw [join, htail, hempty, Bool.or_self, if_neg Bool.false_ne_true]
  split <;> simp [hbase]

/-- What can be looked up in a directory can be looked up up to that directory. -/
theorem flaw_of_join (hbase : base.chars ≠ []) (htail : tail.isRooted = false)
    (h : (base.join tail).flaw? = none) : base.flaw? = none := by
  have hempty : base.chars.isEmpty = false := by simpa using hbase
  obtain ⟨more, hmore⟩ : ∃ more, (base.join tail).chars = base.chars ++ more := by
    rw [join, htail, hempty, Bool.or_self, if_neg Bool.false_ne_true]
    split
    · exact ⟨_, rfl⟩
    · exact ⟨_, rfl⟩
  rw [flaw?, hmore] at h
  have hlong : byteCount base.chars ≤ byteCount (base.chars ++ more) := by
    rw [byteCount, byteCount, String.ofList_append, String.utf8ByteSize_append]
    exact Nat.le_add_right _ _
  rw [flaw?, if_neg, if_neg (by simpa using hbase), if_neg]
  · split at h
    · cases h
    · split at h
      · cases h
      · split at h
        · cases h
        · omega
  · split at h
    · cases h
    · rename_i hzero
      rw [List.contains_iff_mem] at hzero ⊢
      exact fun hmem => hzero (List.mem_append_left _ hmem)

end Join

end DiskPath

/-! ## Names of entries -/

/-- A name that an entry can have. -/
structure IsEntryName (name : String) : Prop where
  speaks : isSilent name.toList = false
  notUp : name.toList ≠ ['.', '.']
  noSlash : '/' ∉ name.toList
  noZero : '\x00' ∉ name.toList
  short : byteCount name.toList ≤ nameLimit

instance (name : String) : Decidable (IsEntryName name) :=
  decidable_of_iff (isSilent name.toList = false ∧ name.toList ≠ ['.', '.'] ∧
      '/' ∉ name.toList ∧ '\x00' ∉ name.toList ∧ byteCount name.toList ≤ nameLimit)
    ⟨fun ⟨a, b, c, d, e⟩ => ⟨a, b, c, d, e⟩, fun ⟨a, b, c, d, e⟩ => ⟨a, b, c, d, e⟩⟩

namespace Place

variable {place : Place}

/-- The names of a place are the pieces of its path. -/
theorem namesOf_toList (h : ∀ name ∈ place, IsEntryName name) :
    namesOf (place.map String.toList) = place := by
  have hkept : (place.map String.toList).filter (fun piece => !isSilent piece) =
      place.map String.toList := by
    rw [List.filter_eq_self]
    intro piece hpiece
    obtain ⟨name, hname, rfl⟩ := List.mem_map.mp hpiece
    simp [(h name hname).speaks]
  rw [namesOf, hkept, List.map_map]
  exact List.map_id'' (fun _ => String.ofList_toList) place

/-- No name on a place holds a slash. -/
theorem no_slash (h : ∀ name ∈ place, IsEntryName name) :
    ∀ segment ∈ place.map String.toList, '/' ∉ segment := by
  intro segment hmem
  obtain ⟨name, hname, rfl⟩ := List.mem_map.mp hmem
  exact (h name hname).noSlash

/-- No name on a place goes up. -/
theorem no_up (h : ∀ name ∈ place, IsEntryName name) : ['.', '.'] ∉ place.map String.toList := by
  intro hmem
  obtain ⟨name, hname, hup⟩ := List.mem_map.mp hmem
  exact (h name hname).notUp hup

/-- The path of a place has the names as its pieces, and no others. -/
theorem allPieces_relativePath (hne : place ≠ []) (h : ∀ name ∈ place, IsEntryName name) :
    place.relativePath.allPieces = place.map String.toList :=
  pieces_slashed (by simpa using hne) (no_slash h)

/-- The names of a place are read back from its relative path. -/
theorem names_relativePath (h : ∀ name ∈ place, IsEntryName name) :
    place.relativePath.names = place := by
  rw [DiskPath.names, DiskPath.allPieces, relativePath, namesOf_pieces_slashed (no_slash h),
    namesOf_toList h]

/-- The path of a place relative to another never goes up. -/
theorem neverUp_relativePath (h : ∀ name ∈ place, IsEntryName name) :
    place.relativePath.NeverUp := by
  rw [DiskPath.NeverUp, DiskPath.allPieces, relativePath]
  cases place with
  | nil => simp [slashed, pieces]
  | cons name rest =>
    rw [pieces_slashed (by simp) (no_slash h)]
    exact no_up h

/-- It is not rooted either. -/
theorem isRooted_relativePath (h : ∀ name ∈ place, IsEntryName name) :
    place.relativePath.isRooted = false := by
  match place with
  | [] => rfl
  | name :: rest =>
    have hname := h name List.mem_cons_self
    obtain ⟨c, cs, hc⟩ := List.exists_cons_of_ne_nil (l := name.toList) (by
      intro hnil
      simpa [hnil, isSilent] using hname.speaks)
    have hslash : c ≠ '/' := by
      rintro rfl
      exact hname.noSlash (by simp [hc])
    cases rest <;> simpa [relativePath, DiskPath.isRooted, slashed, hc] using hslash

/-- The names of a place are read back from its path. -/
theorem names_path (h : ∀ name ∈ place, IsEntryName name) : place.path.names = place := by
  have hrelative := names_relativePath h
  rw [DiskPath.names, DiskPath.allPieces] at hrelative ⊢
  rw [path, pieces, if_pos rfl, namesOf_cons, namesOf_silent rfl]
  exact hrelative

/-- The path of a place from the root never goes up. -/
theorem neverUp_path (h : ∀ name ∈ place, IsEntryName name) : place.path.NeverUp := by
  have hrelative := neverUp_relativePath h
  rw [DiskPath.NeverUp, DiskPath.allPieces] at hrelative ⊢
  rw [path, pieces, if_pos rfl]
  exact List.mem_cons.not.mpr (not_or.mpr ⟨by simp, hrelative⟩)

end Place

/-! ## Parents -/

section Parents

variable {segments kept : List (List Char)}

/-- Pieces are what is left of them without those at their end that are of some kind, and these. -/
theorem eq_trimmed_append (drops : List Char → Bool) (segments : List (List Char)) :
    segments = (segments.reverse.dropWhile drops).reverse ++
      (segments.reverse.takeWhile drops).reverse := by
  rw [← List.reverse_append, List.takeWhile_append_dropWhile, List.reverse_reverse]

/-- Taking silent pieces away at the end takes no name away. -/
theorem namesOf_trimmed {drops : List Char → Bool}
    (h : ∀ piece, drops piece = true → isSilent piece = true) (segments : List (List Char)) :
    namesOf (segments.reverse.dropWhile drops).reverse = namesOf segments := by
  have hdropped : namesOf (segments.reverse.takeWhile drops).reverse = [] := by
    rw [namesOf, List.map_eq_nil_iff, List.filter_eq_nil_iff]
    intro piece hpiece
    simp [h piece (List.mem_takeWhile_imp (List.mem_reverse.mp hpiece))]
  calc namesOf (segments.reverse.dropWhile drops).reverse
    _ = namesOf ((segments.reverse.dropWhile drops).reverse ++
          (segments.reverse.takeWhile drops).reverse) := by
      rw [namesOf_append, hdropped, List.append_nil]
    _ = namesOf segments := by rw [← eq_trimmed_append]

/-- Silent pieces at the end name nothing. -/
theorem namesOf_trimSilent (segments : List (List Char)) :
    namesOf (DiskPath.trimSilent segments) = namesOf segments :=
  namesOf_trimmed (fun _ h => h) segments

/-- What is left when the end is dropped was there before. -/
theorem mem_of_mem_trimmed {drops : List Char → Bool} {piece : List Char}
    (h : piece ∈ (segments.reverse.dropWhile drops).reverse) : piece ∈ segments := by
  rw [eq_trimmed_append drops segments]
  exact List.mem_append_left _ h

/-- The last piece that is left is a name. -/
theorem last_trimSilent {piece : List Char}
    (h : (DiskPath.trimSilent segments).getLast? = some piece) : isSilent piece = false := by
  rw [DiskPath.trimSilent, List.getLast?_reverse] at h
  have := List.head?_dropWhile_not isSilent segments.reverse
  rw [h] at this
  simpa using this

/-- Taking the last step away takes the last name away, and there is one. -/
theorem namesOf_dropStep (h : DiskPath.dropStep? segments = some kept) :
    ∃ name, namesOf segments = namesOf kept ++ [name] := by
  rw [DiskPath.dropStep?] at h
  split at h
  · cases h
  · rename_i rest hrest
    obtain ⟨front, last, hlast⟩ :=
      (List.eq_nil_or_concat (DiskPath.trimSilent segments)).resolve_left hrest
    rw [List.concat_eq_append] at hlast
    have hgetLast : (DiskPath.trimSilent segments).getLast? = some last := by simp [hlast]
    have hspeaks := last_trimSilent hgetLast
    refine ⟨String.ofList last, ?_⟩
    rw [← Option.some.inj h, namesOf_trimSilent, hlast, List.dropLast_concat,
      ← namesOf_name hspeaks, ← namesOf_append, ← hlast, namesOf_trimSilent]

/-- What is left when a step is dropped was there before. -/
theorem mem_of_mem_dropStep (h : DiskPath.dropStep? segments = some kept) {piece : List Char}
    (hmem : piece ∈ kept) : piece ∈ segments := by
  rw [DiskPath.dropStep?] at h
  split at h
  · cases h
  · rw [← Option.some.inj h] at hmem
    exact mem_of_mem_trimmed ((List.dropLast_sublist _).subset (mem_of_mem_trimmed hmem))

end Parents

namespace DiskPath

variable {path parent : DiskPath}

/-- A path that has all names of another one but the last, and starts where it starts. -/
structure IsParent (parent path : DiskPath) : Prop where
  names : ∃ name, path.names = parent.names ++ [name]
  rooted : parent.isRooted = path.isRooted
  neverUp : path.NeverUp → parent.NeverUp

/-- Segments with slashes between them step up only if one of them does. -/
theorem not_up_slashed {segments : List (List Char)} (h : ∀ s ∈ segments, '/' ∉ s)
    (hup : ['.', '.'] ∉ segments) : ['.', '.'] ∉ pieces '/' (slashed segments) := by
  cases segments with
  | nil => simp [slashed, pieces]
  | cons s rest => rwa [pieces_slashed (List.cons_ne_nil _ _) h]

/-- What stands in front of the last step is the parent. -/
theorem isParent_of_parent (h : path.parent? = some parent) (hne : parent.chars ≠ []) :
    parent.IsParent path := by
  obtain ⟨cs⟩ := path
  rw [parent?] at h
  split at h
  · rename_i rest hrest
    obtain rfl : cs = '/' :: rest := hrest
    obtain ⟨kept, hkept, rfl⟩ := Option.map_eq_some_iff.mp h
    -- a path from the root keeps the slash in front
    have hslash : ∀ s ∈ kept, '/' ∉ s := fun s hs => not_mem_piece s (mem_of_mem_dropStep hkept hs)
    refine ⟨?_, rfl, fun hup => ?_⟩
    · obtain ⟨name, hname⟩ := namesOf_dropStep hkept
      refine ⟨name, ?_⟩
      simp only [names, allPieces, pieces, if_pos]
      rw [namesOf_cons, namesOf_cons [] (pieces '/' (slashed kept)), namesOf_pieces_slashed hslash,
        hname, List.append_assoc]
    · simp only [NeverUp, allPieces, pieces, if_pos, List.mem_cons, not_or] at hup ⊢
      exact ⟨by simp, not_up_slashed hslash fun hmem => hup.2 (mem_of_mem_dropStep hkept hmem)⟩
  · rename_i hroot
    have hrooted : (⟨cs⟩ : DiskPath).isRooted = false := isRooted_eq_false_iff.mpr hroot
    split at h
    · rename_i hnil
      exact absurd hnil (pieces_ne_nil '/' cs)
    · rename_i first rest hpieces
      change pieces '/' cs = _ at hpieces
      have hall : ∀ s ∈ first :: rest, '/' ∉ s := by rw [← hpieces]; exact not_mem_piece
      split at h
      -- the first piece stays, so that the parent starts where the path does
      · rename_i kept hkept
        obtain rfl := Option.some.inj h
        have hslash : ∀ s ∈ first :: kept, '/' ∉ s := by
          intro s hs
          rcases List.mem_cons.mp hs with rfl | hmem
          · exact hall _ List.mem_cons_self
          · exact hall s (List.mem_cons_of_mem _ (mem_of_mem_dropStep hkept hmem))
        refine ⟨?_, ?_, fun hup => ?_⟩
        · obtain ⟨name, hname⟩ := namesOf_dropStep hkept
          refine ⟨name, ?_⟩
          rw [names, names, allPieces, allPieces, hpieces, namesOf_pieces_slashed hslash,
            namesOf_cons, namesOf_cons first kept, hname, List.append_assoc]
        · rw [hrooted]
          have hfirst : first ≠ [] := by
            rintro rfl
            cases cs with
            | nil =>
              obtain rfl : [] = rest := (List.cons.inj hpieces).2
              cases hkept
            | cons c more =>
              rw [pieces] at hpieces
              split at hpieces
              · rename_i hc
                simp [isRooted, hc] at hrooted
              · split at hpieces <;> simp at hpieces
          obtain ⟨c, more, hc⟩ := List.exists_cons_of_ne_nil hfirst
          have hslashed : c ≠ '/' := by
            rintro rfl
            exact hall first List.mem_cons_self (by simp [hc])
          cases kept <;> simpa [isRooted, slashed, hc] using hslashed
        · rw [NeverUp, allPieces, hpieces] at hup
          refine not_up_slashed hslash fun hmem => hup ?_
          rcases List.mem_cons.mp hmem with heq | hmem
          · exact heq ▸ List.mem_cons_self
          · exact List.mem_cons_of_mem _ (mem_of_mem_dropStep hkept hmem)
      · split at h
        · cases h
        · exact absurd (Option.some.inj h ▸ rfl) hne

/-- A path that starts where another one starts, and goes on along it. -/
structure IsAbove (above path : DiskPath) : Prop where
  names : above.names <+: path.names
  rooted : above.isRooted = path.isRooted
  neverUp : path.NeverUp → above.NeverUp

theorem IsAbove.refl (path : DiskPath) : path.IsAbove path :=
  ⟨List.prefix_rfl, rfl, id⟩

theorem IsAbove.trans {a b c : DiskPath} (h : a.IsAbove b) (h' : b.IsAbove c) : a.IsAbove c :=
  ⟨h.names.trans h'.names, h.rooted.trans h'.rooted, fun hup => h.neverUp (h'.neverUp hup)⟩

/-- A parent stands above its path. -/
theorem IsParent.isAbove (h : parent.IsParent path) : parent.IsAbove path where
  names := by
    obtain ⟨name, hname⟩ := h.names
    exact hname ▸ List.prefix_append _ _
  rooted := h.rooted
  neverUp := h.neverUp

/-- The prefixes of a path stand above it. -/
theorem isAbove_of_mem_prefixesWithin {count : Nat} {above : DiskPath} :
    ∀ {path : DiskPath}, above ∈ prefixesWithin count path → above.IsAbove path := by
  induction count with
  | zero => simp [prefixesWithin]
  | succ count ih =>
    intro path h
    rw [prefixesWithin] at h
    split at h
    · simp at h
    · rcases List.mem_cons.mp h with rfl | hmem
      · exact .refl above
      · cases hparent : path.parent? with
        | none => simp [hparent] at hmem
        | some parent =>
          rw [hparent, Option.elim_some] at hmem
          have hne : parent.chars ≠ [] := by
            intro hnil
            cases count <;> simp [prefixesWithin, hnil] at hmem
          exact (ih hmem).trans (isParent_of_parent hparent hne).isAbove

end DiskPath

end TypedRoutes
