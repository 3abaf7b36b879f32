import TypedRoutes.Proofs.Grammar.Lexing

/-!
# String literals

The lexical grammar of a string literal in double quotes, with all its escape sequences. A string is
a row of 16-bit units, since an escape may stand for one half of a pair. A quoted text is such a
literal and stands for exactly its text, whatever follows it; nothing shorter and nothing longer is
one.
-/

namespace TypedRoutes

namespace Grammar

variable {cs behind rest rest' more : List Char} {units units' own : List Nat}

/-! ## Units -/

/-- The units that a code point is stored as: itself below `2 ^ 16`, two surrogates from there
on. -/
def pointUnits (point : Nat) : List Nat :=
  if point < 0x10000 then [point]
  else [0xd800 + (point - 0x10000) / 0x400, 0xdc00 + (point - 0x10000) % 0x400]

/-- The units of a text. -/
def textUnits (cs : List Char) : List Nat := cs.flatMap fun c => pointUnits c.toNat

@[simp] theorem textUnits_nil : textUnits [] = [] := rfl

@[simp] theorem textUnits_cons (c : Char) (cs : List Char) :
    textUnits (c :: cs) = pointUnits c.toNat ++ textUnits cs := rfl

/-- No character is stored as a surrogate, so its units tell where the next character starts. -/
theorem pointUnits_append_inj {c d : Char} {front back : List Nat}
    (h : pointUnits c.toNat ++ front = pointUnits d.toNat ++ back) : c = d ∧ front = back := by
  have hc : c.toNat.isValidChar := c.valid
  have hd : d.toNat.isValidChar := d.valid
  have heq : c.toNat = d.toNat ∧ front = back := by
    unfold pointUnits at h
    split at h <;> split at h
    · simpa using h
    · obtain ⟨hhigh, -⟩ := List.cons.inj h
      rcases hc with hc | hc <;> omega
    · obtain ⟨hhigh, -⟩ := List.cons.inj h
      rcases hd with hd | hd <;> omega
    · obtain ⟨hhigh, hlow⟩ := List.cons.inj h
      obtain ⟨hlow, hrest⟩ := List.cons.inj hlow
      exact ⟨by omega, hrest⟩
  exact ⟨Char.toNat_inj.mp heq.1, heq.2⟩

theorem textUnits_injective : Function.Injective textUnits := by
  intro cs ds h
  induction cs generalizing ds with
  | nil =>
    cases ds with
    | nil => rfl
    | cons d ds =>
      rw [textUnits_nil, textUnits_cons, pointUnits] at h
      split at h <;> cases h
  | cons c cs ih =>
    cases ds with
    | nil =>
      rw [textUnits_nil, textUnits_cons, pointUnits] at h
      split at h <;> cases h
    | cons d ds =>
      obtain ⟨rfl, htail⟩ := pointUnits_append_inj h
      rw [ih htail]

/-! ## The grammar -/

/-- An escape sequence behind its backslash, the units that it stands for, and what follows it. A
line end stands for nothing there. The code is that of a module, where a zero is the only digit that
may stand for itself, in front of no other digit. -/
inductive Escapes : List Char → List Nat → List Char → Prop
  | character {c d : Char} {rest : List Char} (stands : escaped? c = some d) :
      Escapes (c :: rest) (pointUnits d.toNat) rest
  | zero {rest : List Char} (alone : ∀ c ∈ rest.head?, c.isDigit = false) :
      Escapes ('0' :: rest) [0] rest
  | lineEnd {c : Char} {rest : List Char} (ends : isLineEnd c = true)
      (alone : c = '\r' → rest.head? ≠ some '\n') : Escapes (c :: rest) [] rest
  | lineEnds {rest : List Char} : Escapes ('\r' :: '\n' :: rest) [] rest
  | unit {a b : Char} {unit : Nat} {rest : List Char} (digits : hexNumber? [a, b] = some unit) :
      Escapes ('x' :: a :: b :: rest) [unit] rest
  | wideUnit {a b c d : Char} {unit : Nat} {rest : List Char}
      (digits : hexNumber? [a, b, c, d] = some unit) :
      Escapes ('u' :: a :: b :: c :: d :: rest) [unit] rest
  | point {cs digits rest : List Char} {point : Nat} (braces : cs = digits ++ '\x7d' :: rest)
      (written : digits ≠ []) (number : hexNumber? digits = some point) (bound : point ≤ 0x10ffff) :
      Escapes ('u' :: '\x7b' :: cs) (pointUnits point) rest

/-- The inside of a string literal in double quotes up to its closing quote, the units of the
string, and what follows the literal. -/
inductive ReadsInside : List Char → List Nat → List Char → Prop
  | closed (rest : List Char) : ReadsInside ('"' :: rest) [] rest
  | plain {c : Char} {cs rest : List Char} {units : List Nat} (quote : c ≠ '"') (slash : c ≠ '\\')
      (lineFeed : c ≠ '\n') (carriageReturn : c ≠ '\r') (inside : ReadsInside cs units rest) :
      ReadsInside (c :: cs) (pointUnits c.toNat ++ units) rest
  | escaped {cs behind rest : List Char} {own units : List Nat}
      (sequence : Escapes cs own behind) (inside : ReadsInside behind units rest) :
      ReadsInside ('\\' :: cs) (own ++ units) rest

/-- A string literal in double quotes at the front of a text, the units of the string, and what
follows the literal. -/
def ReadsLiteral (cs : List Char) (units : List Nat) (rest : List Char) : Prop :=
  ∃ inside, cs = '"' :: inside ∧ ReadsInside inside units rest

theorem hexValue?_of_hexNumber? {digits : List Char} {start value : Nat}
    (h : digits.foldlM (fun value c => (hexValue? c).map (value * 16 + ·)) start = some value) :
    ∀ c ∈ digits, (hexValue? c).isSome = true := by
  induction digits generalizing start with
  | nil => simp
  | cons d digits ih =>
    rw [List.foldlM_cons, Option.bind_eq_bind, Option.bind_eq_some_iff] at h
    obtain ⟨next, hnext, hrest⟩ := h
    obtain ⟨digit, hdigit, -⟩ := Option.map_eq_some_iff.mp hnext
    exact List.forall_mem_cons.mpr ⟨by rw [hdigit]; rfl, ih hrest⟩

/-- There is no closing brace among digits. -/
theorem notMem_brace_of_hexNumber? {digits : List Char} {value : Nat}
    (h : hexNumber? digits = some value) : '\x7d' ∉ digits := fun hmem =>
  absurd (hexValue?_of_hexNumber? h _ hmem) (by decide)

/-- Digits in braces end at the first closing brace. -/
theorem eq_of_braces {digits digits' : List Char} (h : '\x7d' ∉ digits) (h' : '\x7d' ∉ digits')
    (heq : digits' ++ '\x7d' :: rest' = digits ++ '\x7d' :: rest) :
    digits' = digits ∧ rest' = rest := by
  rcases List.append_eq_append_iff.mp heq with ⟨between, rfl, hrest⟩ | ⟨between, rfl, hrest⟩
  · cases between with
    | nil => exact ⟨(List.append_nil _).symm, (List.cons.inj hrest).2⟩
    | cons c between =>
      obtain rfl := (List.cons.inj hrest).1
      exact absurd (List.mem_append_right _ (.head _)) h
  · cases between with
    | nil => exact ⟨List.append_nil _, (List.cons.inj hrest).2.symm⟩
    | cons c between =>
      obtain rfl := (List.cons.inj hrest).1
      exact absurd (List.mem_append_right _ (.head _)) h'

/-- No line end stands for itself behind a backslash. -/
theorem isLineEnd_of_escaped? {c d : Char} (h : escaped? c = some d) : isLineEnd c = false := by
  by_contra hends
  simp [escaped?, Bool.not_eq_false _ ▸ hends] at h
  simp only [isLineEnd, Bool.not_eq_false, Bool.or_eq_true, beq_iff_eq] at hends
  rcases hends with ((rfl | rfl) | rfl) | rfl <;> simp at h

/-- An escape sequence can be read in one way only: its first character tells of which kind it
is. -/
theorem Escapes.unique (h : Escapes cs units rest) (h' : Escapes cs units' rest') :
    units' = units ∧ rest' = rest := by
  cases h with
  | character hstands =>
    cases h' with
    | character hstands' =>
      obtain rfl := Option.some.inj (hstands.symm.trans hstands')
      exact ⟨rfl, rfl⟩
    | lineEnd hends =>
      rw [isLineEnd_of_escaped? hstands] at hends
      cases hends
    | _ => exact absurd hstands (by simp [escaped?, isLineEnd])
  | zero =>
    cases h' with
    | character hstands => exact absurd hstands (by simp [escaped?])
    | zero => exact ⟨rfl, rfl⟩
    | lineEnd hends => exact absurd hends (by decide)
  | lineEnd hends halone =>
    cases h' with
    | character hstands =>
      rw [isLineEnd_of_escaped? hstands] at hends
      cases hends
    | lineEnd => exact ⟨rfl, rfl⟩
    -- a carriage return alone is not followed by a line feed
    | lineEnds => exact absurd rfl (halone rfl)
    | _ => exact absurd hends (by decide)
  | lineEnds =>
    cases h' with
    | character hstands => exact absurd hstands (by simp [escaped?, isLineEnd])
    | lineEnd _ halone => exact absurd rfl (halone rfl)
    | lineEnds => exact ⟨rfl, rfl⟩
  | unit hdigits =>
    cases h' with
    | character hstands => exact absurd hstands (by simp [escaped?])
    | lineEnd hends => exact absurd hends (by decide)
    | unit hdigits' =>
      obtain rfl := Option.some.inj (hdigits.symm.trans hdigits')
      exact ⟨rfl, rfl⟩
  | wideUnit hdigits =>
    cases h' with
    | character hstands => exact absurd hstands (by simp [escaped?])
    | lineEnd hends => exact absurd hends (by decide)
    | wideUnit hdigits' =>
      obtain rfl := Option.some.inj (hdigits.symm.trans hdigits')
      exact ⟨rfl, rfl⟩
    | point => exact absurd (hexValue?_of_hexNumber? hdigits _ (.head _)) (by decide)
  | point hbraces _ hnumber =>
    cases h' with
    | character hstands => exact absurd hstands (by simp [escaped?])
    | lineEnd hends => exact absurd hends (by decide)
    | wideUnit hdigits => exact absurd (hexValue?_of_hexNumber? hdigits _ (.head _)) (by decide)
    | point hbraces' _ hnumber' =>
      obtain ⟨rfl, rfl⟩ := eq_of_braces (notMem_brace_of_hexNumber? hnumber)
        (notMem_brace_of_hexNumber? hnumber') (hbraces'.symm.trans hbraces)
      obtain rfl := Option.some.inj (hnumber.symm.trans hnumber')
      exact ⟨rfl, rfl⟩

/-- What an escape sequence stands for does not depend on what follows, once anything does. -/
theorem Escapes.append (h : Escapes cs own behind) (hne : behind ≠ []) (more : List Char) :
    Escapes (cs ++ more) own (behind ++ more) := by
  have hhead : (behind ++ more).head? = behind.head? := List.head?_append_of_ne_nil _ hne
  cases h with
  | character hstands => exact .character hstands
  | zero halone => exact .zero (hhead ▸ halone)
  | lineEnd hends halone => exact .lineEnd hends (hhead ▸ halone)
  | lineEnds => exact .lineEnds
  | unit hdigits => exact .unit hdigits
  | wideUnit hdigits => exact .wideUnit hdigits
  | point hbraces hwritten hnumber hbound =>
    exact .point (by rw [hbraces]; exact List.append_assoc _ _ more) hwritten hnumber hbound

/-- A literal can be read in one way only. -/
theorem ReadsInside.unique (h : ReadsInside cs units rest) (h' : ReadsInside cs units' rest') :
    units' = units ∧ rest' = rest := by
  induction h generalizing units' rest' with
  | closed rest =>
    cases h' with
    | closed => exact ⟨rfl, rfl⟩
    | plain hquote => exact absurd rfl hquote
  | plain hquote hslash _ _ _ ih =>
    cases h' with
    | closed => exact absurd rfl hquote
    | plain _ _ _ _ hinside =>
      obtain ⟨rfl, rfl⟩ := ih hinside
      exact ⟨rfl, rfl⟩
    | escaped => exact absurd rfl hslash
  | escaped hsequence _ ih =>
    cases h' with
    | plain _ hslash => exact absurd rfl hslash
    | escaped hsequence' hinside =>
      obtain ⟨rfl, rfl⟩ := hsequence.unique hsequence'
      obtain ⟨rfl, rfl⟩ := ih hinside
      exact ⟨rfl, rfl⟩

theorem ReadsInside.ne_nil (h : ReadsInside cs units rest) : cs ≠ [] := by
  cases h <;> exact List.cons_ne_nil _ _

/-- What a literal stands for does not depend on what follows it. -/
theorem ReadsInside.append (h : ReadsInside cs units rest) (more : List Char) :
    ReadsInside (cs ++ more) units (rest ++ more) := by
  induction h with
  | closed rest => exact .closed _
  | plain hquote hslash hline hreturn _ ih => exact .plain hquote hslash hline hreturn ih
  | escaped hsequence hinside ih =>
    exact .escaped (hsequence.append hinside.ne_nil more) ih

/-! ## Quoted texts -/

/-- The scanner of the printed language knows part of the grammar, and reads that part alike. -/
theorem readsInside_of_scanText {read : List Char} {value : String}
    (h : scanText '"' read cs = some (value, rest)) :
    ∃ text, value.toList = read.reverse ++ text ∧ ReadsInside cs (textUnits text) rest := by
  fun_induction scanText '"' read cs with
  | case1 | case2 | case5 => cases h
  | case3 read c behind ih =>
    obtain ⟨d, hd, h⟩ := Option.bind_eq_some_iff.mp h
    obtain ⟨text, hvalue, hinside⟩ := ih d h
    refine ⟨d :: text, ?_, .escaped (.character hd) hinside⟩
    rw [hvalue, List.reverse_cons, List.append_assoc, List.singleton_append]
  | case4 read behind =>
    obtain ⟨rfl, rfl⟩ := Prod.mk.inj (Option.some.inj h)
    exact ⟨[], by rw [String.toList_ofList, List.append_nil], .closed _⟩
  | case6 read c behind hend hslash hquote hbreak ih =>
    obtain ⟨text, hvalue, hinside⟩ := ih h
    simp only [Bool.or_eq_true, decide_eq_true_eq, not_or] at hbreak
    have hplain : c ≠ '\\' := fun hc => by
      cases behind with
      | nil => exact hend hc rfl
      | cons next others => exact hslash next others hc rfl
    refine ⟨c :: text, ?_, .plain hquote hplain hbreak.1 hbreak.2 hinside⟩
    rw [hvalue, List.reverse_cons, List.append_assoc, List.singleton_append]

/-- What is written is a literal that stands for a text. Whatever follows, it is read to its end and
no further; nothing else at the front is a literal by itself; and no line ends in it. -/
structure Quotes (written : List Char) (text : String) : Prop where
  read (rest : List Char) {units : List Nat} {left : List Char} :
    ReadsLiteral (written ++ rest) units left ↔ units = textUnits text.toList ∧ left = rest
  whole {literal more rest : List Char} {units : List Nat}
    (front : literal ++ more = written ++ rest)
    (alone : ReadsLiteral literal units []) : literal = written
  unbroken : ∀ c ∈ written, c ≠ '\n' ∧ c ≠ '\r'

theorem readsLiteral_quoteText (text : String) (rest : List Char) :
    ReadsLiteral ((quoteText text).toList ++ rest) (textUnits text.toList) rest := by
  have hscan := scanText_escapeText text.toList [] rest
  obtain ⟨cs, hcs, hinside⟩ := readsInside_of_scanText hscan
  rw [String.toList_ofList, List.reverse_nil, List.nil_append, List.nil_append] at hcs
  refine ⟨text.toList.flatMap escapeChar ++ '"' :: rest, ?_, hcs ▸ hinside⟩
  simp [quoteText, escapeText]

/-- A literal is read in the same way in front of anything, and in no other way. -/
theorem quotes_of_readsLiteral {written : List Char} {text : String}
    (h : ∀ rest, ReadsLiteral (written ++ rest) (textUnits text.toList) rest)
    (hunbroken : ∀ c ∈ written, c ≠ '\n' ∧ c ≠ '\r') : Quotes written text := by
  have hread : ∀ (rest : List Char) {units : List Nat} {left : List Char},
      ReadsLiteral (written ++ rest) units left → units = textUnits text.toList ∧ left = rest := by
    rintro rest units left ⟨inside, hinside, hreads⟩
    obtain ⟨inside', hinside', hreads'⟩ := h rest
    obtain rfl := (List.cons.inj (hinside'.symm.trans hinside)).2
    exact hreads'.unique hreads
  refine ⟨fun rest units left => ⟨hread rest, ?_⟩, ?_, hunbroken⟩
  · rintro ⟨rfl, rfl⟩
    exact h left
  · rintro literal more rest units hfront ⟨inside, rfl, hreads⟩
    have hmore : ReadsLiteral (written ++ rest) units more :=
      ⟨inside ++ more, hfront.symm, hreads.append more⟩
    obtain rfl := (hread rest hmore).2
    exact List.append_cancel_right hfront

theorem unbroken_escapeChar (c : Char) : ∀ d ∈ escapeChar c, d ≠ '\n' ∧ d ≠ '\r' := by
  unfold escapeChar
  split
  all_goals simp_all

theorem quotes_quoteText (text : String) : Quotes (quoteText text).toList text := by
  refine quotes_of_readsLiteral (readsLiteral_quoteText text) fun c hc => ?_
  simp only [quoteText, escapeText, String.toList_append, String.toList_ofList, List.mem_append,
    List.mem_flatMap] at hc
  rcases hc with (hc | ⟨d, -, hc⟩) | hc
  · obtain rfl := List.mem_singleton.mp hc
    decide
  · exact unbroken_escapeChar d c hc
  · obtain rfl := List.mem_singleton.mp hc
    decide

/-! ## Escapes one after the other -/

/-- A text with every occurrence of a character replaced. -/
def replaced (target : Char) (replacement cs : List Char) : List Char :=
  cs.flatMap fun c => if c = target then replacement else [c]

/-- Escaping each character by itself is the same as replacing in the whole text, one kind of
character after the other; backslashes have to come first, so that those that are written later stay
as they are. -/
theorem flatMap_escapeChar (cs : List Char) : cs.flatMap escapeChar =
    replaced '\t' ['\\', 't'] (replaced '\r' ['\\', 'r'] (replaced '\n' ['\\', 'n']
      (replaced '"' ['\\', '"'] (replaced '\\' ['\\', '\\'] cs)))) := by
  simp only [replaced, List.flatMap_assoc]
  congr 1
  funext c
  unfold escapeChar
  split
  all_goals simp_all

end Grammar

open Grammar

/-- Escaping a text replaces backslashes, quotes, line feeds, carriage returns and tabs, in that
order, in the whole text. A quoted text, as a string of a program and as a key, is a literal that
stands for exactly the text. So no two texts are escaped alike. -/
theorem escapeText_exact :
    (∀ text : String, (escapeText text).toList =
      replaced '\t' ['\\', 't'] (replaced '\r' ['\\', 'r'] (replaced '\n' ['\\', 'n']
        (replaced '"' ['\\', '"'] (replaced '\\' ['\\', '\\'] text.toList))))) ∧
    (∀ text : String, Quotes ('"' :: ((escapeText text).toList ++ ['"'])) text) ∧
    (∀ (text : String) (style : Style) (depth : Nat),
      Quotes ((Expr.string text).text style depth).toList text) ∧
    (∀ key : String, isIdentifier key = false → Quotes (keyText key).toList key) ∧
    Function.Injective escapeText := by
  have hquotes (text : String) : Quotes ('"' :: ((escapeText text).toList ++ ['"'])) text := by
    have hwritten : (quoteText text).toList = '"' :: ((escapeText text).toList ++ ['"']) := by
      simp [quoteText]
    exact hwritten ▸ quotes_quoteText text
  refine ⟨fun text => ?_, hquotes, fun text _ _ => ?_, fun key hkey => ?_, fun text other heq => ?_⟩
  · rw [escapeText, String.toList_ofList, flatMap_escapeChar]
  · rw [Expr.text]
    exact quotes_quoteText text
  · rw [keyText, hkey, if_neg Bool.false_ne_true]
    exact quotes_quoteText key
  · have hread := ((hquotes text).read []).mpr ⟨rfl, rfl⟩
    rw [heq] at hread
    exact String.toList_injective (textUnits_injective (((hquotes other).read []).mp hread).1)

end TypedRoutes
