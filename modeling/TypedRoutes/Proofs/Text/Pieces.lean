import TypedRoutes.Text.Search
import Mathlib.Data.List.Infix

/-!
# Texts and their pieces

Cutting a text at a separator and joining the pieces are inverse to each other. So a text that is
joined itself occurs in another one exactly where its pieces stand side by side: the first one at
the end of a piece, the last one at the beginning of a piece, and those between as whole pieces.
-/

namespace TypedRoutes

variable {separator : Char} {cs : List Char}

/-- A text is split at every separator. -/
theorem pieces_append (before after : List Char) :
    pieces separator (before ++ separator :: after) =
      pieces separator before ++ pieces separator after := by
  induction before with
  | nil => simp [pieces]
  | cons c rest ih =>
    rw [List.cons_append, pieces, ih, pieces]
    split
    · rfl
    · cases h : pieces separator rest with
      | nil => exact absurd h (pieces_ne_nil separator rest)
      | cons piece more => rfl

/-- A text without separator is one piece. -/
theorem pieces_eq_singleton (h : separator ∉ cs) : pieces separator cs = [cs] := by
  induction cs with
  | nil => rfl
  | cons c rest ih =>
    obtain ⟨hc, hrest⟩ := not_or.mp (List.mem_cons.not.mp h)
    rw [pieces, if_neg (Ne.symm hc), ih hrest]

/-- No piece holds a separator. -/
theorem not_mem_piece : ∀ piece ∈ pieces separator cs, separator ∉ piece := by
  induction cs with
  | nil => simp [pieces]
  | cons c rest ih =>
    rw [pieces]
    split
    · simpa using ih
    · rename_i hc
      cases h : pieces separator rest with
      | nil => simpa using Ne.symm hc
      | cons first more =>
        rw [h] at ih
        intro piece hpiece
        rcases List.mem_cons.mp hpiece with rfl | hmem
        · exact List.mem_cons.not.mpr (not_or.mpr ⟨Ne.symm hc, ih first List.mem_cons_self⟩)
        · exact ih piece (List.mem_cons_of_mem _ hmem)

/-- The last piece is empty only behind a separator, or when there is nothing at all. -/
theorem eq_nil_or_of_last_piece (h : (pieces separator cs).getLast? = some []) :
    cs = [] ∨ cs.getLast? = some separator := by
  induction cs with
  | nil => exact .inl rfl
  | cons c rest ih =>
    right
    rw [pieces] at h
    split at h
    · rename_i hc
      rw [List.getLast?_cons] at h
      cases hlast : (pieces separator rest).getLast? with
      | none => exact absurd (List.getLast?_eq_none_iff.mp hlast) (pieces_ne_nil separator rest)
      | some last =>
        rw [hlast, Option.getD_some] at h
        rcases ih (hlast.trans h) with rfl | hrest
        · simp [hc]
        · simp [List.getLast?_cons, hrest]
    · cases hpieces : pieces separator rest with
      | nil => exact absurd hpieces (pieces_ne_nil separator rest)
      | cons first more =>
        rw [hpieces] at h ih
        cases more with
        | nil => simp at h
        | cons second others =>
          rw [List.getLast?_cons_cons] at h ih
          rcases ih h with rfl | hrest
          · simp [pieces] at hpieces
          · simp [List.getLast?_cons, hrest]

/-- Segments joined by slashes are split into the segments again. -/
theorem pieces_slashed {segments : List (List Char)} (hne : segments ≠ [])
    (h : ∀ segment ∈ segments, '/' ∉ segment) : pieces '/' (slashed segments) = segments := by
  match segments with
  | [segment] => exact pieces_eq_singleton (h segment List.mem_cons_self)
  | segment :: second :: rest =>
    rw [slashed, pieces_append, pieces_eq_singleton (h segment List.mem_cons_self),
      pieces_slashed (List.cons_ne_nil _ _) fun s hs => h s (List.mem_cons_of_mem _ hs)]
    · rfl
    · exact List.cons_ne_nil _ _

@[simp] theorem slashed_singleton (segment : List Char) : slashed [segment] = segment := rfl

@[simp] theorem slashed_cons_cons (segment second : List Char) (rest : List (List Char)) :
    slashed (segment :: second :: rest) = segment ++ '/' :: slashed (second :: rest) := rfl

/-- Joined segments behind joined segments. -/
theorem slashed_append {front back : List (List Char)} (hfront : front ≠ []) (hback : back ≠ []) :
    slashed (front ++ back) = slashed front ++ '/' :: slashed back := by
  match front with
  | [segment] =>
    obtain ⟨second, rest, rfl⟩ := List.exists_cons_of_ne_nil hback
    rfl
  | segment :: second :: rest =>
    simp only [List.cons_append, slashed_cons_cons, List.append_assoc]
    rw [← List.cons_append, slashed_append (List.cons_ne_nil _ _) hback]

/-- A text is its pieces with slashes between them. -/
theorem slashed_pieces (cs : List Char) : slashed (pieces '/' cs) = cs := by
  induction cs with
  | nil => rfl
  | cons c rest ih =>
    rw [pieces]
    cases hpieces : pieces '/' rest with
    | nil => exact absurd hpieces (pieces_ne_nil '/' rest)
    | cons piece more =>
      rw [hpieces] at ih
      split
      · rename_i hc
        rw [slashed_cons_cons, ih, hc, List.nil_append]
      · cases more with
        | nil => exact congrArg (c :: ·) ih
        | cons second others =>
          rw [slashed_cons_cons] at ih ⊢
          rw [List.cons_append, ih]

/-- Joined segments hold no characters but slashes and those of the segments. -/
theorem mem_slashed_iff {segments : List (List Char)} {c : Char} (hc : c ≠ '/') :
    c ∈ slashed segments ↔ ∃ segment ∈ segments, c ∈ segment := by
  match segments with
  | [] => simp [slashed]
  | [segment] => simp [slashed]
  | segment :: second :: rest =>
    rw [slashed_cons_cons, List.mem_append, List.mem_cons, mem_slashed_iff hc]
    simp [hc]

/-- A piece comes from the text. -/
theorem subset_of_mem_pieces {piece cs : List Char} (h : piece ∈ pieces '/' cs) : piece ⊆ cs := by
  intro c hc
  have hne : c ≠ '/' := by
    rintro rfl
    exact not_mem_piece piece h hc
  rw [← slashed_pieces cs, mem_slashed_iff hne]
  exact ⟨piece, h, hc⟩

/-! ## Joined texts inside other texts -/

/-- A text without separators stands at the end of the last piece. -/
theorem exists_last_piece {part : List Char} (h : '/' ∉ part) (front : List Char) :
    ∃ before piece, pieces '/' (front ++ part) = before ++ [piece] ∧ part <:+ piece := by
  induction front with
  | nil => exact ⟨[], part, pieces_eq_singleton h, List.suffix_refl part⟩
  | cons c rest ih =>
    obtain ⟨before, piece, hpieces, hsuffix⟩ := ih
    rw [List.cons_append, pieces, hpieces]
    split
    · exact ⟨[] :: before, piece, rfl, hsuffix⟩
    · cases before with
      | nil => exact ⟨[], c :: piece, rfl, hsuffix.trans (List.suffix_cons c piece)⟩
      | cons first more => exact ⟨(c :: first) :: more, piece, rfl, hsuffix⟩

/-- A text without separators stands at the beginning of the first piece. -/
theorem exists_first_piece {part : List Char} (h : '/' ∉ part) (back : List Char) :
    ∃ piece after, pieces '/' (part ++ back) = piece :: after ∧ part <+: piece := by
  induction part with
  | nil =>
    obtain ⟨piece, after, hpieces⟩ := List.exists_cons_of_ne_nil (pieces_ne_nil '/' back)
    exact ⟨piece, after, hpieces, List.nil_prefix⟩
  | cons c rest ih =>
    obtain ⟨hc, hrest⟩ := not_or.mp (List.mem_cons.not.mp h)
    obtain ⟨piece, after, hpieces, hprefix⟩ := ih hrest
    rw [List.cons_append, pieces, if_neg (Ne.symm hc), hpieces]
    exact ⟨c :: piece, after, rfl, List.cons_prefix_cons.mpr ⟨rfl, hprefix⟩⟩

/-- Joined segments in front of a text are pieces of their own up to the last one. -/
theorem pieces_slashed_append {middle : List (List Char)} (h : ∀ segment ∈ middle, '/' ∉ segment)
    (last back : List Char) :
    pieces '/' (slashed (middle ++ [last]) ++ back) = middle ++ pieces '/' (last ++ back) := by
  induction middle with
  | nil => rfl
  | cons segment rest ih =>
    have hslashed : slashed (segment :: rest ++ [last]) =
        segment ++ '/' :: slashed (rest ++ [last]) :=
      slashed_append (List.cons_ne_nil segment []) (by simp)
    rw [hslashed, List.append_assoc, List.cons_append, pieces_append,
      pieces_eq_singleton (h segment List.mem_cons_self),
      ih fun other hother => h other (List.mem_cons_of_mem _ hother)]
    rfl

/-- Segments in front are a text in front. -/
theorem slashed_prefix_append (front back : List (List Char)) :
    slashed front <+: slashed (front ++ back) := by
  by_cases hfront : front = []
  · rw [hfront]
    exact List.nil_prefix
  · by_cases hback : back = []
    · rw [hback, List.append_nil]
    · rw [slashed_append hfront hback]
      exact List.prefix_append _ _

/-- Segments behind are a text behind. -/
theorem slashed_suffix_append (front back : List (List Char)) :
    slashed back <:+ slashed (front ++ back) := by
  by_cases hback : back = []
  · rw [hback]
    exact List.nil_suffix
  · by_cases hfront : front = []
    · rw [hfront, List.nil_append]
    · rw [slashed_append hfront hback]
      exact (List.suffix_cons _ _).trans (List.suffix_append _ _)

/-- A shorter first segment is a shorter text. -/
theorem slashed_cons_suffix {first segment : List Char} (h : first <:+ segment)
    (rest : List (List Char)) : slashed (first :: rest) <:+ slashed (segment :: rest) := by
  obtain ⟨front, rfl⟩ := h
  cases rest with
  | nil => exact List.suffix_append front first
  | cons second more =>
    rw [slashed_cons_cons, slashed_cons_cons, List.append_assoc]
    exact List.suffix_append front _

/-- A shorter last segment is a shorter text. -/
theorem prefix_slashed_concat {last segment : List Char} (h : last <+: segment)
    (front : List (List Char)) : slashed (front ++ [last]) <+: slashed (front ++ [segment]) := by
  by_cases hfront : front = []
  · subst hfront
    exact h
  · rw [slashed_append hfront (by simp), slashed_append hfront (by simp)]
    exact (List.prefix_append_right_inj _).mpr (List.cons_prefix_cons.mpr ⟨rfl, h⟩)

/-- Where a joined text occurs. -/
theorem slashed_infix_iff {first last : List Char} {middle : List (List Char)}
    (hfirst : '/' ∉ first) (hmiddle : ∀ segment ∈ middle, '/' ∉ segment) (hlast : '/' ∉ last)
    (cs : List Char) :
    slashed (first :: (middle ++ [last])) <:+: cs ↔
      ∃ before opening closing after,
        pieces '/' cs = before ++ opening :: (middle ++ closing :: after) ∧
          first <:+ opening ∧ last <+: closing := by
  constructor
  · rintro ⟨front, back, rfl⟩
    have hslashed : slashed (first :: (middle ++ [last])) =
        first ++ '/' :: slashed (middle ++ [last]) :=
      slashed_append (List.cons_ne_nil first []) (by simp)
    obtain ⟨before, opening, hopening, hsuffix⟩ := exists_last_piece hfirst front
    obtain ⟨closing, after, hclosing, hprefix⟩ := exists_first_piece hlast back
    refine ⟨before, opening, closing, after, ?_, hsuffix, hprefix⟩
    calc pieces '/' (front ++ slashed (first :: (middle ++ [last])) ++ back)
        = pieces '/' ((front ++ first) ++ '/' :: (slashed (middle ++ [last]) ++ back)) := by
          rw [hslashed]
          simp only [List.append_assoc, List.cons_append]
      _ = (before ++ [opening]) ++ (middle ++ closing :: after) := by
          rw [pieces_append, hopening, pieces_slashed_append hmiddle, hclosing]
      _ = before ++ opening :: (middle ++ closing :: after) := by simp
  · rintro ⟨before, opening, closing, after, hpieces, hsuffix, hprefix⟩
    have hcs : slashed (before ++ (opening :: (middle ++ [closing]) ++ after)) = cs := by
      rw [← slashed_pieces cs, hpieces]
      simp
    have hopening : slashed (first :: (middle ++ [last])) <:+:
        slashed (opening :: (middle ++ [last])) := (slashed_cons_suffix hsuffix _).isInfix
    have hclosing : slashed (opening :: (middle ++ [last])) <:+:
        slashed (opening :: (middle ++ [closing])) :=
      (prefix_slashed_concat hprefix (opening :: middle)).isInfix
    have hwhole : slashed (opening :: (middle ++ [closing])) <:+: cs := by
      rw [← hcs]
      exact (slashed_prefix_append _ after).isInfix.trans (slashed_suffix_append before _).isInfix
    exact (hopening.trans hclosing).trans hwhole

end TypedRoutes
