import TypedRoutes.Artifact.Validate
import TypedRoutes.Proofs.Generation.Stability
import TypedRoutes.Proofs.Runtime.Lists

/-!
# Paths of mismatches

A validator extends the path of a value for each part that it looks at: by a literal, by the number
of an item, by the quoted key of a record. The path stays a text inside the closures around it.
-/

namespace TypedRoutes.Runtime

variable {world : World} {env inner : Env} {depth : Nat} {path step : Expr} {text more : String}

/-- The standard serializer writes a text in quotes. -/
theorem Evaluates.standardJson_string {input : Expr} (hfree : env.lookup? "JSON" = none)
    (h : Evaluates world env input (.data (.string text))) :
    Evaluates world env (.standardJson input) (.data (.string (Json.quote text))) :=
  .standardJson hfree h rfl

/-- The expression spells the text here and inside all closures that are built around it. -/
def SpellsBelow (world : World) (env : Env) (depth : Nat) (expr : Expr) (text : String) : Prop :=
  ∀ inner, env.AgreesBelow depth inner → Spells world inner expr text

namespace SpellsBelow

theorem evaluates (h : SpellsBelow world env depth path text) :
    Evaluates world env path (.data (.string text)) :=
  (h env (.refl depth env)).evaluates

theorem bound {name : String} (h : env.lookup? name = some (.data (.string text)))
    (hname : ¬ BoundFrom depth name) : SpellsBelow world env depth (.identifier name) text :=
  fun _ hi => .of_evaluates rfl (.bound ((hi name hname).trans h))

theorem inside {deeper : Nat} (h : SpellsBelow world env depth path text)
    (ha : env.AgreesBelow depth inner) (hle : depth ≤ deeper) :
    SpellsBelow world inner deeper path text :=
  fun _ hi => h _ (ha.trans (hi.shallower hle))

/-- A path with a literal step. -/
theorem literal (h : SpellsBelow world env depth path text) (more : String) :
    SpellsBelow world env depth (.concatenation [path, .string more]) (text ++ more) := by
  intro inner hi
  obtain ⟨-, pieces, starts⟩ := h inner hi
  have hmore : Pieces world inner (Expr.flatten .plus [.string more]) more :=
    .singleton (Evaluates.string more) rfl
  exact .concatenation (pieces.flatten_cons hmore) (starts.flatten_cons _)

/-- A path with a step that is computed. -/
theorem indexed {value : Data} (h : SpellsBelow world env depth path text)
    (hshape : step.operands .plus = [step])
    (hstep : ∀ inner, env.AgreesBelow depth inner → Evaluates world inner step (.data value))
    (hpiece : value.text? world = some more) :
    SpellsBelow world env depth (Scope.indexed path step) (text ++ ("[" ++ (more ++ "]"))) := by
  intro inner hi
  obtain ⟨-, pieces, starts⟩ := h inner hi
  have hclose : Pieces world inner (Expr.flatten .plus [.string "]"]) "]" :=
    .singleton (Evaluates.string "]") rfl
  have hmiddle : Pieces world inner (step.operands .plus) more :=
    hshape ▸ .singleton (hstep inner hi) hpiece
  have hopen : Pieces world inner (Expr.operands .plus (.string "[")) "[" :=
    .singleton (Evaluates.string "[") rfl
  exact .concatenation (pieces.flatten_cons (hopen.flatten_cons (hmiddle.flatten_cons hclose)))
    (starts.flatten_cons _)

end SpellsBelow

end TypedRoutes.Runtime
