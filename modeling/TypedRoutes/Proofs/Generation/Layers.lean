import TypedRoutes.Proofs.Generation.Enclosed
import TypedRoutes.Proofs.Generation.Requests

/-!
# Layers of closures

Generated closures stand inside of each other without a gap in their numbers: around a place of a
certain nesting there is one closure of every number from where generation started. So a numbered
name is bound by the closure of its number and by no other.

A condition that is met by closures of the next number, by what they bind and by names without
number is met by the tests, reports and texts that generated code is built from.
-/

namespace TypedRoutes

/-! ## Names without number -/

/-- A name that starts with another letter is none of the numbered ones. -/
theorem not_boundFrom_of_head {depth : Nat} {name : String} {letter : Char}
    (hhead : name.toList.head? = some letter)
    (hletter : letter ∉ ['i', 'p', 'f', 's', 'e', 'k', 'v']) : ¬ BoundFrom depth name :=
  fun h => hletter (h.toLocal.head_mem letter hhead)

/-- No standard name is a numbered one. -/
theorem not_boundFrom_standard {depth : Nat} {name : String} (h : name ∈ standardNames) :
    ¬ BoundFrom depth name := by
  simp only [standardNames, List.mem_cons, List.not_mem_nil, or_false] at h
  rcases h with rfl | rfl | rfl | rfl | rfl | rfl | rfl <;>
    exact not_boundFrom_of_head rfl (by decide)

/-! ## Numbered closures -/

/-- The closure takes names of the given number, made of the given words. -/
def OfLevel (words : List String) (level : Nat) (params : List String) : Prop :=
  params ≠ [] ∧ ∀ name ∈ params, ∃ word ∈ words, name = bindingName level word

instance (words : List String) (level : Nat) : DecidablePred (OfLevel words level) :=
  fun _ => inferInstanceAs (Decidable (_ ∧ _))

/-- The closures, the innermost first, have the numbers from `base` on. -/
def Layered (words : List String) (base : Nat) : List (List String) → Prop
  | [] => True
  | params :: outer => OfLevel words (base + outer.length) params ∧ Layered words base outer

variable {words more params : List String} {base level depth : Nat} {name word : String}
  {inner outer closures : List (List String)}

/-- A closure with one parameter of its level. -/
theorem OfLevel.singleton (h : word ∈ words) (level : Nat) :
    OfLevel words level [bindingName level word] :=
  ⟨List.cons_ne_nil _ _, List.forall_mem_singleton.mpr ⟨word, h, rfl⟩⟩

/-- A closure with two parameters of its level. -/
theorem OfLevel.pair {other : String} (h : word ∈ words) (ho : other ∈ words) (level : Nat) :
    OfLevel words level [bindingName level word, bindingName level other] := by
  refine ⟨List.cons_ne_nil _ _, ?_⟩
  simp only [List.forall_mem_cons]
  exact ⟨⟨word, h, rfl⟩, ⟨other, ho, rfl⟩, by simp⟩

/-- More words may be numbered. -/
theorem OfLevel.mono (h : OfLevel words level params) (hwords : words ⊆ more) :
    OfLevel more level params :=
  ⟨h.1, fun name hname => (h.2 name hname).imp fun _ hword => ⟨hwords hword.1, hword.2⟩⟩

/-- The number of a closure can be read off any of its names. -/
theorem OfLevel.level_eq (h : OfLevel binders level params) (hword : word ∈ binders)
    (hmem : bindingName depth word ∈ params) : level = depth := by
  obtain ⟨other, hother, heq⟩ := h.2 _ hmem
  obtain rfl := base_eq_of_bindingName_eq hword hother heq
  exact (bindingName_inj.mp heq).symm

/-- A closure has one level only. -/
theorem OfLevel.unique {other : Nat} (h : OfLevel binders level params)
    (ho : OfLevel binders other params) : level = other := by
  obtain ⟨name, hname⟩ := List.exists_mem_of_ne_nil params h.1
  obtain ⟨word, hword, rfl⟩ := ho.2 name hname
  exact h.level_eq hword hname

/-- The parameters of a level are bound from every base up to it. -/
theorem OfLevel.boundFrom (h : OfLevel binders level params) (hmem : name ∈ params)
    (hle : base ≤ level) : BoundFrom base name := by
  obtain ⟨word, hword, rfl⟩ := h.2 name hmem
  exact ⟨level, word, hle, hword, rfl⟩

namespace Layered

/-- More words may be numbered in all layers. -/
theorem mono (h : Layered words base closures) (hwords : words ⊆ more) :
    Layered more base closures := by
  induction closures with
  | nil => trivial
  | cons params outer ih => exact ⟨h.1.mono hwords, ih h.2⟩

/-- The outer layers of a stack are layered as well. -/
theorem drop (h : Layered words base (inner ++ outer)) : Layered words base outer := by
  induction inner with
  | nil => exact h
  | cons params inner ih => exact ih h.2

/-- The number of a closure is the number of closures around it, counted from `base`. -/
theorem ofLevel (h : Layered words base (inner ++ params :: outer)) :
    OfLevel words (base + outer.length) params :=
  h.drop.1

/-- What is nested deeper has a greater number. -/
theorem lt_level (h : Layered binders base (inner ++ outer)) {deeper : List String}
    (hmem : deeper ∈ inner) (hlevel : OfLevel binders level deeper) :
    base + outer.length ≤ level := by
  obtain ⟨front, back, rfl⟩ := List.append_of_mem hmem
  rw [List.append_assoc, List.cons_append] at h
  have heq := h.ofLevel.unique hlevel
  rw [List.length_append] at heq
  omega

/-- Every name of a layer is bound from the base. -/
theorem boundFrom (h : Layered binders base closures) (hmem : params ∈ closures)
    (hname : name ∈ params) : BoundFrom base name := by
  obtain ⟨front, back, rfl⟩ := List.append_of_mem hmem
  exact h.ofLevel.boundFrom hname (Nat.le_add_right base back.length)

/-- Where a name is bound, the innermost closure that binds it is the nearest of its number. -/
theorem find?_name (h : Layered binders base closures) (hword : word ∈ binders)
    (hmem : bindingName level word ∈ closures.flatten) :
    ∃ params, closures.find? (bindingName level word ∈ ·) = some params ∧
      closures.find? (OfLevel binders level ·) = some params := by
  obtain ⟨params, hparams, hname⟩ := List.mem_flatten.mp hmem
  obtain ⟨inner, outer, rfl⟩ := List.append_of_mem hparams
  have hlevel : base + outer.length = level := h.ofLevel.level_eq hword hname
  have hdeeper {other : Nat} {deeper : List String} (hin : deeper ∈ inner)
      (hother : OfLevel binders other deeper) : other ≠ level := by
    have hlt := h.lt_level hin hother
    rw [List.length_cons] at hlt
    omega
  refine ⟨params, List.find?_eq_some_iff_append.mpr ⟨by simpa using hname, inner, outer, rfl, ?_⟩,
    List.find?_eq_some_iff_append.mpr ⟨by simpa [hlevel] using h.ofLevel, inner, outer, rfl, ?_⟩⟩
  · intro deeper hin
    obtain ⟨front, back, rfl⟩ := List.append_of_mem hin
    rw [List.append_assoc, List.cons_append] at h
    have hother := h.ofLevel
    simpa using fun hbound => hdeeper hin hother (hother.level_eq hword hbound)
  · intro deeper hin
    simpa using fun hother => hdeeper hin hother rfl

end Layered

/-- Generation has come to the given nesting, inside of one closure for every number since
`base`. -/
structure Nest (words : List String) (base depth : Nat) (outer : List (List String)) : Prop where
  layers : Layered words base outer
  depth_eq : depth = base + outer.length

namespace Nest

/-- Nothing is bound at the start. -/
theorem start (words : List String) (depth : Nat) : Nest words depth depth [] :=
  ⟨trivial, rfl⟩

/-- A nest of some words is one of more. -/
theorem mono (h : Nest words base depth outer) (hwords : words ⊆ more) :
    Nest more base depth outer :=
  ⟨h.layers.mono hwords, h.depth_eq⟩

/-- A closure of the current level adds a layer. -/
theorem push (h : Nest words base depth outer) (hparams : OfLevel words depth params) :
    Nest words base (depth + 1) (params :: outer) := by
  refine ⟨⟨h.depth_eq ▸ hparams, h.layers⟩, ?_⟩
  rw [h.depth_eq, List.length_cons, Nat.add_assoc]

end Nest

/-! ## Conditions that generated code meets -/

namespace Condition

variable {factory expr input path : Expr} {c : Condition factory}

/-- The condition is met by what generated code names and binds: names without number anywhere,
numbered ones where they are bound, closures of the next number, and the closures whose bodies hold
no others. -/
structure Serves (c : Condition factory) (base : Nat) : Prop where
  name : ∀ closures name, ¬ BoundFrom 0 name → c.holds closures (.identifier name)
  parameter : ∀ closures name, Layered binders base closures → name ∈ closures.flatten →
    c.holds closures (.identifier name)
  closure : ∀ closures params body, Layered binders base closures →
    OfLevel binders (base + closures.length) params → c.holds closures (.lambda params body)
  leaf : ∀ closures name body, Layered binders base closures → name ∈ ["flag", "str"] →
    c.holds closures (.lambda [name] body)

/-- The words of which serializers make names. -/
def itemBinders : List String := ["elem", "key"]

/-- The words for items are among the binders. -/
theorem itemBinders_subset : itemBinders ⊆ binders := by
  simp [itemBinders, binders]

/-- The condition is met by calls of the factory as well, inside of closures of serializers, and by
the factory inside of all generated closures. -/
structure ServesCalls (c : Condition factory) (base : Nat) : Prop extends c.Serves base where
  runtime : ∀ closures key arguments, Layered itemBinders base closures →
    c.holds closures (.invoke (.property factory key) arguments)
  factory : ∀ closures, Layered binders base closures → (c.under closures).Everywhere factory

/-- The expression meets the condition here and inside of all closures that are generated around
it. -/
def Fits (c : Condition factory) (base : Nat) (outer : List (List String)) (expr : Expr) : Prop :=
  ∀ inner, Layered binders base (inner ++ outer) → (c.under (inner ++ outer)).Everywhere expr

namespace Fits

/-- What fits under a base meets the condition in any nest. -/
theorem everywhere (h : c.Fits base outer expr) (hnest : Nest binders base depth outer) :
    (c.under outer).Everywhere expr :=
  h [] hnest.layers

/-- Inside of one more closure. -/
theorem enter (h : c.Fits base outer expr) (params : List String) :
    c.Fits base (params :: outer) expr := by
  intro inner hlayers
  have hsplit : inner ++ params :: outer = (inner ++ [params]) ++ outer := by simp
  rw [hsplit] at hlayers ⊢
  exact h _ hlayers

/-- A parameter fits right under its closure. -/
theorem parameter (hc : c.Serves base) (hname : name ∈ params) :
    c.Fits base (params :: outer) (.identifier name) := by
  refine fun inner hlayers => .identifier (hc.parameter _ _ hlayers ?_)
  exact List.mem_flatten.mpr ⟨params, by simp, hname⟩

/-- A name without number fits everywhere. -/
theorem unnumbered (hc : c.Serves base) (h : ¬ BoundFrom 0 name) :
    c.Fits base outer (.identifier name) :=
  fun _ _ => .identifier (hc.name _ name h)

/-- A text fits everywhere. -/
theorem string (value : String) : c.Fits base outer (.string value) :=
  fun _ _ => .string value

/-- A property fits if its target does. -/
theorem member (h : c.Fits base outer expr) (key : String) :
    c.Fits base outer (.member expr key) :=
  fun inner hlayers => (h inner hlayers).member key

/-- An element at a fixed position fits if its target does. -/
theorem position (h : c.Fits base outer expr) (n : Nat) :
    c.Fits base outer (.element expr (.natural n)) :=
  fun inner hlayers => (h inner hlayers).element (.number _)

/-- An element fits if the target and the index do. -/
theorem element {index : Expr} (h : c.Fits base outer expr) (hi : c.Fits base outer index) :
    c.Fits base outer (.element expr index) :=
  fun inner hlayers => (h inner hlayers).element (hi inner hlayers)

/-- A concatenation fits if its parts do. -/
theorem concatenation {parts : List Expr} (h : ∀ part ∈ parts, c.Fits base outer part) :
    c.Fits base outer (Expr.concatenation parts) :=
  fun inner hlayers => .concatenation fun part hpart => h part hpart inner hlayers

end Fits

namespace Serves

variable (hc : c.Serves base)
include hc

/-- A standard name meets what is asked of names. -/
theorem standard (outer : List (List String)) (h : name ∈ standardNames) :
    (c.under outer).holds [] (.identifier name) :=
  hc.name outer name (not_boundFrom_standard h)

/-- The name of a helper meets what is asked of names. -/
theorem helper (outer : List (List String)) (kind : HelperKind) (index : Nat) :
    (c.under outer).holds [] (.identifier (kind.helperName index)) :=
  hc.name outer _ fun h => kind.not_local_helperName index h.toLocal

/-- A test for an array meets the condition if its input does. -/
theorem isArray (h : (c.under outer).Everywhere input) :
    (c.under outer).Everywhere (.isArray input) :=
  .method (.identifier (hc.standard outer (by simp [standardNames]))) (by decide)
    (List.forall_mem_singleton.mpr h)

/-- A call of the standard serializer does. -/
theorem standardJson (h : (c.under outer).Everywhere input) :
    (c.under outer).Everywhere (.standardJson input) :=
  .method (.identifier (hc.standard outer (by simp [standardNames]))) (by decide)
    (List.forall_mem_singleton.mpr h)

/-- A comparison with undefined does. -/
theorem isUndefined (h : (c.under outer).Everywhere input) :
    (c.under outer).Everywhere (.equals .undefined input) :=
  .binary _ (.identifier (hc.standard outer (by simp [standardNames]))) h

/-- What a standard function of objects gives for a value. -/
theorem ofObject (key : String) (h : (c.under outer).Everywhere input)
    (hkey : key ∉ runtimeNames) :
    (c.under outer).Everywhere (.invoke (.property (.identifier "Object") key) [input]) :=
  .method (.identifier (hc.standard outer (by simp [standardNames]))) hkey
    (List.forall_mem_singleton.mpr h)

/-- A method that is given a closure of the next number. -/
theorem traverse {target body : Expr} (key : String) (hnest : Nest binders base depth outer)
    (h : (c.under outer).Everywhere target) (hkey : key ∉ runtimeNames)
    (hparams : OfLevel binders depth params)
    (hbody : (c.under (params :: outer)).Everywhere body) :
    (c.under outer).Everywhere (.invoke (.property target key) [.lambda params body]) := by
  refine .method h hkey (List.forall_mem_singleton.mpr (.lambda ?_ ?_))
  · exact hc.closure outer params body hnest.layers (hnest.depth_eq ▸ hparams)
  · rw [under_under]
    exact hbody

/-- A method that is given a closure without number. -/
theorem sift {target body : Expr} {key : String} (hnest : Nest binders base depth outer)
    (h : (c.under outer).Everywhere target) (hkey : key ∉ runtimeNames)
    (hname : name ∈ ["flag", "str"]) (hbody : (c.under ([name] :: outer)).Everywhere body) :
    (c.under outer).Everywhere (.invoke (.property target key) [.lambda [name] body]) := by
  refine .method h hkey (List.forall_mem_singleton.mpr (.lambda ?_ ?_))
  · exact hc.leaf outer name body hnest.layers hname
  · rw [under_under]
    exact hbody

end Serves

/-- A call of the factory inside of closures of serializers. -/
theorem ServesCalls.call (hc : c.ServesCalls base) (hnest : Nest itemBinders base depth outer)
    (key : String) {arguments : List Expr}
    (h : ∀ argument ∈ arguments, (c.under outer).Everywhere argument) :
    (c.under outer).Everywhere (.invoke (.property factory key) arguments) :=
  .runtime (hc.runtime outer key arguments hnest.layers)
    (hc.factory outer (hnest.layers.mono itemBinders_subset)) h

/-- A call of the standard serializer fits if its input does. -/
theorem Fits.standardJson (h : c.Fits base outer input) (hc : c.Serves base) :
    c.Fits base outer (.standardJson input) :=
  fun inner hlayers => hc.standardJson (h inner hlayers)

end Condition

end TypedRoutes
