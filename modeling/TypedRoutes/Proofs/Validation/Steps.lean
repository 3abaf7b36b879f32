import TypedRoutes.Artifact.Validate
import TypedRoutes.Proofs.Json.Numbers
import TypedRoutes.Proofs.Json.Quoting
import TypedRoutes.Proofs.Runtime.Machine

/-!
# Steps of paths

The path of a mismatch is the name of the input with a step for each part on the way: a name behind
a dot, a position or a quoted key in brackets. A path is read back as the steps it is written from,
and a step is followed by reading a property or an item.
-/

namespace TypedRoutes.Runtime

/-- A step of a path, from a value to a part of it. -/
inductive ValueStep where
  | property (name : String)
  | index (position : Nat)
  | key (text : String)
  deriving DecidableEq, Repr

namespace ValueStep

/-- The step to a declared property, by key if the name cannot be written bare. -/
def ofName (name : String) : ValueStep :=
  if isIdentifier name then .property name else .key name

/-- A step as it is written. -/
def text : ValueStep → String
  | property name => "." ++ name
  | index position => "[" ++ Decimal.naturalText position ++ "]"
  | key text => "[" ++ Json.quote text ++ "]"

/-- A step whose name, if it stands behind a dot, may be written bare. -/
def Readable : ValueStep → Prop
  | property name => isIdentifier name = true
  | _ => True

/-- Where a step leads from a value. -/
def follow? (world : World) : ValueStep → Data → Option Data
  | property name, value => if value.isPresent then some (world.get value name) else none
  | key text, value => if value.isPresent then some (world.get value text) else none
  | index position, .array items => items[position]?
  | index _, _ => none

/-- The step to a property is written as its accessor. -/
theorem text_ofName (name : String) : (ofName name).text = Scope.accessor name := by
  rw [ofName, Scope.accessor]
  split <;> rfl

/-- The step to a property can be read. -/
theorem readable_ofName (name : String) : (ofName name).Readable := by
  rw [ofName]
  split
  · assumption
  · trivial

/-- The step to a property leads to its value. -/
theorem follow?_ofName {world : World} {value : Data} (h : value.isPresent = true) (name : String) :
    (ofName name).follow? world value = some (world.get value name) := by
  rw [ofName]
  split
  · exact if_pos h
  · exact if_pos h

end ValueStep

/-- Where a path leads from a value. -/
def followPath? (world : World) (steps : List ValueStep) (value : Data) : Option Data :=
  steps.foldlM (fun value step => step.follow? world value) value

/-- A path is followed step by step. -/
theorem followPath?_cons {world : World} {step : ValueStep} {value part : Data}
    (h : step.follow? world value = some part) (steps : List ValueStep) :
    followPath? world (step :: steps) value = followPath? world steps part := by
  simp [followPath?, h]

/-- A path that starts with the given text. -/
def pathFrom (start : String) (steps : List ValueStep) : String :=
  steps.foldl (fun text step => text ++ step.text) start

/-- One more step is written behind the others. -/
theorem pathFrom_concat (start : String) (steps : List ValueStep) (step : ValueStep) :
    pathFrom start (steps ++ [step]) = pathFrom start steps ++ step.text := by
  simp [pathFrom]

/-- A path is its start and the texts of its steps. -/
theorem toList_pathFrom (start : String) (steps : List ValueStep) :
    (pathFrom start steps).toList = start.toList ++ steps.flatMap fun step => step.text.toList := by
  induction steps generalizing start with
  | nil => simp [pathFrom]
  | cons step steps ih =>
    have hfirst : pathFrom start (step :: steps) = pathFrom (start ++ step.text) steps := rfl
    rw [hfirst, ih, String.toList_append, List.append_assoc, List.flatMap_cons]

/-! ## Reading paths -/

/-- What stands behind a closing bracket. -/
def closeBracket? (step : ValueStep) : List Char → Option (ValueStep × List Char)
  | ']' :: rest => some (step, rest)
  | _ => none

/-- Reads a name behind a dot. -/
def readName? (cs : List Char) : Option (ValueStep × List Char) :=
  let name := String.ofList (cs.takeWhile isIdentifierPart)
  if isIdentifier name then some (.property name, cs.dropWhile isIdentifierPart) else none

/-- Reads what stands in brackets: a string or decimal digits. -/
def readBracket? : List Char → Option (ValueStep × List Char)
  | '"' :: cs =>
    match Json.scanString (some []) cs with
    | .found (some text) rest => closeBracket? (.key text) rest
    | _ => none
  | cs =>
    match cs.takeWhile Char.isDigit with
    | [] => none
    | digits => closeBracket? (.index (Json.digitsValue digits)) (cs.dropWhile Char.isDigit)

/-- Reads one step. -/
def readStep? : List Char → Option (ValueStep × List Char)
  | '.' :: cs => readName? cs
  | '[' :: cs => readBracket? cs
  | _ => none

/-- Reads steps up to the end of the text, as many as are allowed. -/
def readSteps? : Nat → List Char → Option (List ValueStep)
  | _, [] => some []
  | 0, _ => none
  | fuel + 1, cs => do
    let (step, rest) ← readStep? cs
    let steps ← readSteps? fuel rest
    return step :: steps

/-- Reads the steps of a path behind the name of the input. No step is written without
characters. -/
def readPath? (path : String) : Option (List ValueStep) :=
  match path.toList with
  | '$' :: 'i' :: 'n' :: 'p' :: 'u' :: 't' :: cs => readSteps? cs.length cs
  | _ => none

/-- The text behind a name does not go on with the name. -/
def EndsName (cs : List Char) : Prop :=
  ∀ c ∈ cs.head?, isIdentifierPart c = false

/-- A name is read up to what ends names. -/
theorem readName?_append {name : String} (hname : isIdentifier name = true) {rest : List Char}
    (hrest : EndsName rest) :
    readName? (name.toList ++ rest) = some (.property name, rest) := by
  have hparts : ∀ c ∈ name.toList, isIdentifierPart c = true := by
    intro c hc
    rw [isIdentifier] at hname
    split at hname
    · cases hname
    · rename_i first others hlist
      rw [hlist] at hc
      rw [Bool.and_eq_true, List.all_eq_true] at hname
      rcases List.mem_cons.mp hc with rfl | hothers
      · exact isIdentifierPart_of_start hname.1
      · exact hname.2 c hothers
  have hends : rest.takeWhile isIdentifierPart = [] ∧ rest.dropWhile isIdentifierPart = rest := by
    cases rest with
    | nil => exact ⟨rfl, rfl⟩
    | cons c rest => simp [hrest c rfl]
  rw [readName?, List.takeWhile_append_of_pos hparts, List.dropWhile_append_of_pos hparts, hends.1,
    hends.2, List.append_nil, String.ofList_toList]
  exact if_pos hname

/-- A position in brackets is read back. -/
theorem readBracket?_naturalText (position : Nat) (rest : List Char) :
    readBracket? ((Decimal.naturalText position).toList ++ ']' :: rest) =
      some (.index position, rest) := by
  have hdigital := Json.digital_toDigits position
  have htake : (Nat.toDigits 10 position ++ ']' :: rest).takeWhile Char.isDigit =
      Nat.toDigits 10 position := by
    rw [List.takeWhile_append_of_pos hdigital.digits]
    simp
  have hdrop : (Nat.toDigits 10 position ++ ']' :: rest).dropWhile Char.isDigit = ']' :: rest := by
    rw [List.dropWhile_append_of_pos hdigital.digits]
    simp
  have hquote : ∀ cs, Nat.toDigits 10 position ++ ']' :: rest ≠ '"' :: cs := by
    intro cs hcs
    obtain ⟨digit, digits, hdigits⟩ := List.exists_cons_of_ne_nil hdigital.ne_nil
    have hfirst := hdigital.digits digit (by simp [hdigits])
    rw [hdigits, List.cons_append, List.cons.injEq] at hcs
    rw [hcs.1] at hfirst
    cases hfirst
  rw [Decimal.naturalText, String.toList_ofList, readBracket?]
  · rw [htake, hdrop]
    split
    · exact absurd ‹_› hdigital.ne_nil
    · rw [Json.digitsValue_toDigits, closeBracket?]
  · exact hquote

/-- A quoted key in brackets is read back. -/
theorem readBracket?_quote (text : String) (rest : List Char) :
    readBracket? ((Json.quote text).toList ++ ']' :: rest) = some (.key text, rest) := by
  have hscan := Json.scanString_flatMap [] text.toList (']' :: rest)
  rw [List.reverse_nil, List.nil_append, String.ofList_toList] at hscan
  rw [Json.quote, String.toList_ofList, List.cons_append, readBracket?, List.append_assoc,
    List.singleton_append, hscan]
  rfl

/-- A step is read back in front of other steps. -/
theorem readStep?_text {step : ValueStep} (hstep : step.Readable) {rest : List Char}
    (hrest : EndsName rest) : readStep? (step.text.toList ++ rest) = some (step, rest) := by
  cases step with
  | property name =>
    rw [ValueStep.text, String.toList_append, List.append_assoc]
    exact readName?_append hstep hrest
  | index position =>
    rw [ValueStep.text, String.toList_append, String.toList_append, List.append_assoc,
      List.append_assoc]
    exact readBracket?_naturalText position rest
  | key text =>
    rw [ValueStep.text, String.toList_append, String.toList_append, List.append_assoc,
      List.append_assoc]
    exact readBracket?_quote text rest

/-- A step starts with a dot or a bracket. -/
theorem exists_cons_text (step : ValueStep) :
    ∃ c cs, step.text.toList = c :: cs ∧ isIdentifierPart c = false := by
  cases step with
  | property name => exact ⟨'.', name.toList, by simp [ValueStep.text], by decide⟩
  | index position =>
    exact ⟨'[', (Decimal.naturalText position).toList ++ [']'], by simp [ValueStep.text], by decide⟩
  | key text => exact ⟨'[', (Json.quote text).toList ++ [']'], by simp [ValueStep.text], by decide⟩

/-- A step ends a name. -/
theorem endsName_flatMap (steps : List ValueStep) :
    EndsName (steps.flatMap fun step => step.text.toList) := by
  cases steps with
  | nil => simp [EndsName]
  | cons step steps =>
    obtain ⟨c, cs, htext, hc⟩ := exists_cons_text step
    simp [EndsName, htext, hc]

/-- All steps are read back with enough rounds. -/
theorem readSteps?_flatMap {steps : List ValueStep} (h : ∀ step ∈ steps, step.Readable) {fuel : Nat}
    (hfuel : steps.length ≤ fuel) :
    readSteps? fuel (steps.flatMap fun step => step.text.toList) = some steps := by
  induction steps generalizing fuel with
  | nil => cases fuel <;> rfl
  | cons step steps ih =>
    obtain ⟨fuel, rfl⟩ : ∃ less, fuel = less + 1 :=
      Nat.exists_eq_succ_of_ne_zero (Nat.ne_of_gt (Nat.lt_of_lt_of_le (by simp) hfuel))
    obtain ⟨c, cs, htext, -⟩ := exists_cons_text step
    have hread := readStep?_text (h step List.mem_cons_self) (endsName_flatMap steps)
    have hothers := ih (fun other hother => h other (List.mem_cons_of_mem _ hother))
      (Nat.le_of_succ_le_succ hfuel)
    rw [List.flatMap_cons]
    rw [htext, List.cons_append] at hread ⊢
    rw [readSteps?, hread]
    · simp [hothers]
    · simp

/-- There are no more steps than characters. -/
theorem length_le_length_flatMap (steps : List ValueStep) :
    steps.length ≤ (steps.flatMap fun step => step.text.toList).length := by
  induction steps with
  | nil => simp
  | cons step steps ih =>
    obtain ⟨c, cs, htext, -⟩ := exists_cons_text step
    rw [List.flatMap_cons, htext, List.length_append, List.length_cons, List.length_cons]
    omega

/-- A path is read as the steps it is written from. -/
theorem readPath?_pathFrom {steps : List ValueStep} (h : ∀ step ∈ steps, step.Readable) :
    readPath? (pathFrom "$input" steps) = some steps := by
  rw [readPath?, toList_pathFrom]
  exact readSteps?_flatMap h (length_le_length_flatMap steps)

/-- Names, keys and positions, one behind the other. -/
example : readPath? "$input.items[12][\"a-b\"].next" =
    some [.property "items", .index 12, .key "a-b", .property "next"] := by
  decide

end TypedRoutes.Runtime
