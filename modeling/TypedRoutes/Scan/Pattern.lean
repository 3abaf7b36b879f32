import TypedRoutes.Disk.Path

/-!
# Path patterns

Which paths a pattern selects is for its reader to say. Here patterns select files by their path: a
question mark stands for one character, a star for any number of them, brackets for one character
out of a set, and two stars that are a whole step of the path for any number of steps. A slash is a
character like any other, so a star also passes over directories.
-/

namespace TypedRoutes

/-- A reader of patterns: which paths the pattern with a given text selects, or what is wrong with
it. -/
class Globs where
  compile : String → Except String (DiskPath → Bool)

/-- A part of a set of characters. -/
inductive CharRange where
  | one (char : Char)
  | span (first last : Char)
  deriving DecidableEq, Repr

/-- Whether a character belongs to a part of a set. -/
def CharRange.holds (range : CharRange) (c : Char) : Bool :=
  match range with
  | .one char => c == char
  | .span first last => first ≤ c && c ≤ last

/-- A part of a pattern. -/
inductive PatternToken where
  | exactly (char : Char)
  | anything
  | within (ranges : List CharRange)
  | outside (ranges : List CharRange)
  /-- Any number of characters. -/
  | run
  /-- Any number of steps. -/
  | steps
  deriving DecidableEq, Repr

/-- A pattern is what its parts match one after the other. -/
structure Pattern where
  tokens : List PatternToken
  deriving DecidableEq, Repr

/-- What is wrong with a pattern, with the position of the fault in characters. -/
inductive PatternProblem where
  | tooManyStars (position : Nat)
  | partialStep (position : Nat)
  | badRange (position : Nat)
  deriving DecidableEq, Repr

/-- Where a pattern is faulty. -/
def PatternProblem.position : PatternProblem → Nat
  | .tooManyStars position | .partialStep position | .badRange position => position

/-- What is wrong with a pattern, without the position. -/
def PatternProblem.description : PatternProblem → String
  | .tooManyStars _ => "wildcards are either regular \x60*\x60 or recursive \x60**\x60"
  | .partialStep _ => "recursive wildcards must form a single path component"
  | .badRange _ => "invalid range pattern"

/-- What is wrong with a pattern, in words. -/
def PatternProblem.message (problem : PatternProblem) : String :=
  "Pattern syntax error near position " ++ toString problem.position ++ ": " ++ problem.description

namespace Pattern

/-- The parts of a set: a hyphen between two characters makes a range of them. -/
def ranges : List Char → List CharRange
  | a :: '-' :: b :: rest => .span a b :: ranges rest
  | a :: rest => .one a :: ranges rest
  | [] => []

/-- A set that starts with the character `first`, and what follows its closing bracket. The first
character belongs to the set whatever it is. -/
def rangesUntil? (first : Char) (rest : List Char) : Option (List CharRange × List Char) :=
  match rest.dropWhile (· != ']') with
  | [] => none
  | _ :: after => some (ranges (first :: rest.takeWhile (· != ']')), after)

/-- The set behind an opening bracket, and what follows it. -/
def bracket? : List Char → Option (PatternToken × List Char)
  | '!' :: first :: rest =>
    (rangesUntil? first rest).map fun found => (.outside found.1, found.2)
  | '!' :: [] => none
  | first :: rest => (rangesUntil? first rest).map fun found => (.within found.1, found.2)
  | [] => none

/-- What follows two stars that are a whole step, the slash behind them included. -/
def afterStep? : List Char → Option (List Char)
  | [] => some []
  | '/' :: rest => some rest
  | _ => none

/-- The parts of a pattern from a position on, where `before` stands in front of that position.
Every part takes a character, so as many steps as there are characters are enough. -/
def tokensWithin (position : Nat) (before : Option Char) :
    Nat → List Char → Except PatternProblem (List PatternToken)
  | _, [] => .ok []
  | 0, _ :: _ => .ok []
  | steps + 1, c :: rest =>
    let followed (token : PatternToken) (before : Char) (left : List Char) :
        Except PatternProblem (List PatternToken) := do
      return token :: (← tokensWithin (position + (rest.length + 1 - left.length)) (some before)
        steps left)
    if c = '?' then followed .anything c rest
    else if c = '*' then
      match rest.takeWhile (· == '*'), rest.dropWhile (· == '*') with
      | [], _ => followed .run c rest
      | [_], left =>
        if before.any (· != '/') then .error (.partialStep (position - 1))
        else match afterStep? left with
          | some left => followed .steps '/' left
          | none => .error (.partialStep (position + 2))
      | _ :: _ :: _, _ => .error (.tooManyStars (position + 2))
    else if c = '[' then
      match bracket? rest with
      | some (token, left) => followed token ']' left
      | none => .error (.badRange position)
    else followed (.exactly c) c rest

/-- Reads a pattern. -/
def ofString (text : String) : Except PatternProblem Pattern := do
  return ⟨← tokensWithin 0 none text.toList.length text.toList⟩

/-- All ends of a text, the text itself first. -/
def suffixes : List Char → List (List Char)
  | [] => [[]]
  | c :: rest => (c :: rest) :: suffixes rest

/-- The ends of a text that stand behind a slash. -/
def suffixesBehindSlash : List Char → List (List Char)
  | [] => []
  | c :: rest =>
    if c = '/' then rest :: suffixesBehindSlash rest else suffixesBehindSlash rest

/-- Where the rest of a text may go on after any number of steps. -/
def stepStarts (cs : List Char) : List (List Char) :=
  cs :: (suffixesBehindSlash cs ++ [[]])

/-- Whether a character fits a part that stands for one character. -/
def admits : PatternToken → Char → Bool
  | .exactly char, c => c == char
  | .anything, _ => true
  | .within ranges, c => ranges.any (·.holds c)
  | .outside ranges, c => !ranges.any (·.holds c)
  | .run, _ | .steps, _ => false

/-- Whether parts match a text as a whole. -/
def matchTokens : List PatternToken → List Char → Bool
  | [], cs => cs.isEmpty
  | .run :: rest, cs => (suffixes cs).any (matchTokens rest)
  | .steps :: rest, cs => (stepStarts cs).any (matchTokens rest)
  | token :: rest, cs =>
    match cs with
    | [] => false
    | c :: left => admits token c && matchTokens rest left

/-- From which end of a text on a run of characters leads to a match, given from which end on the
parts behind the run match. -/
def runEnds : List Bool → List Bool
  | [] => []
  | here :: later => (here || later.any id) :: runEnds later

/-- Whether the parts behind any number of steps match at the end of a text, or behind one of its
slashes. -/
def behindSlash : List Char → List Bool → Bool
  | c :: rest, _ :: later => (c = '/' && later.headD false) || behindSlash rest later
  | _, ends => ends.headD false

/-- From which end of a text on any number of steps lead to a match. -/
def stepEnds : List Char → List Bool → List Bool
  | c :: rest, here :: later =>
    (here || behindSlash (c :: rest) (here :: later)) :: stepEnds rest later
  | _, ends => ends

/-- From which end of a text on one character leads to a match. -/
def charEnds (token : PatternToken) : List Char → List Bool → List Bool
  | c :: rest, _ :: later => (admits token c && later.headD false) :: charEnds token rest later
  | _, ends => ends.map fun _ => false

/-- From which end of a text on one part and those behind it match. -/
def partEnds : PatternToken → List Char → List Bool → List Bool
  | .run, _, ends => runEnds ends
  | .steps, cs, ends => stepEnds cs ends
  | token, cs, ends => charEnds token cs ends

/-- Which ends of a text parts match, the whole text first. Every part is asked once for every end,
so the work is bounded by the lengths of the pattern and of the text. -/
def matchedEnds (cs : List Char) : List PatternToken → List Bool
  | [] => (suffixes cs).map List.isEmpty
  | token :: rest => partEnds token cs (matchedEnds cs rest)

/-- Whether a pattern matches a path. -/
def isMatch (pattern : Pattern) (path : List Char) : Bool :=
  (matchedEnds path pattern.tokens).headD false

/-- The whole text is the first of its ends. -/
theorem headD_map_suffixes (f : List Char → Bool) (cs : List Char) :
    ((suffixes cs).map f).headD false = f cs := by
  cases cs <;> simp [suffixes]

/-- A run may end anywhere. -/
theorem runEnds_map (f : List Char → Bool) (cs : List Char) :
    runEnds ((suffixes cs).map f) = (suffixes cs).map fun s => (suffixes s).any f := by
  induction cs with
  | nil => simp [suffixes, runEnds]
  | cons c rest ih =>
    simp only [suffixes, List.map_cons, runEnds, ih, List.any_map, List.any_cons]
    rfl

/-- Steps that are passed over end behind a slash or with the text. -/
theorem behindSlash_map (f : List Char → Bool) (cs : List Char) :
    behindSlash cs ((suffixes cs).map f) = (suffixesBehindSlash cs ++ [[]]).any f := by
  induction cs with
  | nil => simp [suffixes, behindSlash, suffixesBehindSlash]
  | cons c rest ih =>
    rw [suffixes, List.map_cons, behindSlash, headD_map_suffixes, ih, suffixesBehindSlash]
    split <;> simp_all

/-- Any number of steps may be passed over. -/
theorem stepEnds_map (f : List Char → Bool) (cs : List Char) :
    stepEnds cs ((suffixes cs).map f) = (suffixes cs).map fun s => (stepStarts s).any f := by
  induction cs with
  | nil => simp [suffixes, stepEnds, stepStarts, suffixesBehindSlash]
  | cons c rest ih =>
    have hb := behindSlash_map f (c :: rest)
    rw [suffixes, List.map_cons] at hb
    rw [suffixes, List.map_cons, stepEnds, hb, ih, List.map_cons, stepStarts, List.any_cons]

/-- One character stands in front of the next end. -/
theorem charEnds_map (token : PatternToken) (f : List Char → Bool) (cs : List Char) :
    charEnds token cs ((suffixes cs).map f) = (suffixes cs).map fun s =>
      match s with
      | [] => false
      | c :: left => admits token c && f left := by
  induction cs with
  | nil => simp [suffixes, charEnds]
  | cons c rest ih =>
    rw [suffixes, List.map_cons, charEnds, headD_map_suffixes, ih, List.map_cons]

/-- The ends that are found are those that the parts match. -/
theorem matchedEnds_eq_map (cs : List Char) (tokens : List PatternToken) :
    matchedEnds cs tokens = (suffixes cs).map (matchTokens tokens) := by
  induction tokens with
  | nil => rfl
  | cons token rest ih =>
    cases token with
    | run => exact (congrArg runEnds ih).trans (runEnds_map _ cs)
    | steps => exact (congrArg (stepEnds cs) ih).trans (stepEnds_map _ cs)
    | exactly _ | anything | within _ | outside _ =>
      exact (congrArg (charEnds _ cs) ih).trans (charEnds_map _ _ cs)

/-- A pattern matches a path when its parts match the path as a whole. -/
theorem isMatch_eq_matchTokens (pattern : Pattern) (path : List Char) :
    isMatch pattern path = matchTokens pattern.tokens path := by
  rw [isMatch, matchedEnds_eq_map, headD_map_suffixes]

/-- Patterns select the paths that they match. -/
scoped instance : Globs where
  compile text := match ofString text with
    | .ok pattern => .ok fun path => pattern.isMatch path.chars
    | .error problem => .error problem.message

end Pattern

end TypedRoutes
