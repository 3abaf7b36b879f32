import TypedRoutes.Proofs.Runtime.Natives
import TypedRoutes.Proofs.Runtime.Texts

/-!
# Calls that make lists and texts

What the calls yield that put texts together: the images of the items of an array, the items that a
test holds of, the joined items, the text of a primitive value and the functions from outside.
-/

namespace TypedRoutes.Runtime

variable {world : World} {env : Env} {heap middle after : Heap}

/-- What there is for every item of a list, as a list. -/
theorem exists_forall₂ {α β : Type} [Nonempty β] {related : α → β → Prop} {items : List α}
    (h : ∀ item ∈ items, ∃ other, related item other) :
    ∃ others, List.Forall₂ related items others := by
  choose! other hother using h
  exact ⟨items.map other, List.forall₂_map_right_iff.mpr (List.forall₂_same.mpr hother)⟩

/-! ## Images -/

theorem mapItems_nil (image : Value) (items : List Data) (position : Nat) :
    (mapItems world image items [] position).Yields heap [] heap := by
  refine .step ?_
  simp only [mapItems]
  exact .pure [] heap

theorem mapItems_cons {image : Value} {items rest images : List Data} {item result : Data}
    {position : Nat}
    (h : (apply world image (.data .undefined) [.data item, .data (.number (Float.ofNat position)),
      .data (.array items)]).Yields heap (.data result) middle)
    (hr : (mapItems world image items rest (position + 1)).Yields middle images after) :
    (mapItems world image items (item :: rest) position).Yields heap (result :: images) after := by
  refine .step ?_
  simp only [mapItems]
  refine h.bind ?_
  exact (Process.Yields.pure result middle).bind (hr.bind (.pure _ after))

theorem mapItems_yields {name : String} {body : Expr} {items rest images : List Data}
    (h : List.Forall₂ (fun item image =>
      Evaluates world (.bind name (.data item) env) body (.data image)) rest images)
    (position : Nat) (heap : Heap) :
    (mapItems world (.closure [name] (.concise body) env) items rest position).Yields heap images
      heap := by
  induction h generalizing position with
  | nil => exact mapItems_nil _ items position
  | @cons item image rest images heval _ ih =>
    refine mapItems_cons (apply_closure ?_) (ih (position + 1))
    rw [bindAll_item]
    exact heval heap

/-- The images of all items of an array. -/
theorem Evaluates.map {name : String} {target body : Expr} {items images : List Data}
    (ht : Evaluates world env target (.data (.array items)))
    (h : List.Forall₂ (fun item image =>
      Evaluates world (.bind name (.data item) env) body (.data image)) items images) :
    Evaluates world env (.invoke (.property target "map") [.lambda [name] body])
      (.data (.array images)) := by
  intro heap
  refine yields_method (ht heap) (world.get_map items) (Evaluates.closure _ _ heap) ?_
  refine .step ?_
  simp only [apply]
  exact (mapItems_yields h 0 heap).bind (.pure _ heap)

/-! ## Items that a test holds of -/

theorem filter_nil (test : Value) (items : List Data) (position : Nat) :
    (filter world test items [] position).Yields heap [] heap := by
  refine .step ?_
  simp only [filter]
  exact .pure [] heap

theorem filter_cons {test result : Value} {items rest kept : List Data} {item : Data}
    {position : Nat}
    (h : (apply world test (.data .undefined) [.data item, .data (.number (Float.ofNat position)),
      .data (.array items)]).Yields heap result middle)
    (hr : (filter world test items rest (position + 1)).Yields middle kept after) :
    (filter world test items (item :: rest) position).Yields heap
      (if result.truthy then item :: kept else kept) after := by
  refine .step ?_
  simp only [filter]
  exact h.bind (hr.bind (.pure _ after))

theorem filter_yields {name : String} {test : Expr} {items : List Data} {passes : Data → Bool}
    (rest : List Data)
    (h : ∀ item ∈ rest, Evaluates world (.bind name (.data item) env) test
      (.data (.boolean (passes item)))) (position : Nat) (heap : Heap) :
    (filter world (.closure [name] (.concise test) env) items rest position).Yields heap
      (rest.filter passes) heap := by
  induction rest generalizing position with
  | nil => exact filter_nil _ items position
  | cons item rest ih =>
    have htest := h item List.mem_cons_self
    have hrest := ih (fun other hother => h other (List.mem_cons_of_mem _ hother)) (position + 1)
    have hcall : (apply world (.closure [name] (.concise test) env) (.data .undefined)
        [.data item, .data (.number (Float.ofNat position)), .data (.array items)]).Yields heap
          (.data (.boolean (passes item))) heap := by
      refine apply_closure ?_
      rw [bindAll_item]
      exact htest heap
    rw [List.filter_cons]
    exact filter_cons hcall hrest

/-- The items of an array that a test holds of. -/
theorem Evaluates.filter {name : String} {target test : Expr} {items : List Data}
    {passes : Data → Bool} (ht : Evaluates world env target (.data (.array items)))
    (h : ∀ item ∈ items, Evaluates world (.bind name (.data item) env) test
      (.data (.boolean (passes item)))) :
    Evaluates world env (.invoke (.property target "filter") [.lambda [name] test])
      (.data (.array (items.filter passes))) := by
  intro heap
  refine yields_method (ht heap) (world.get_filter items) (Evaluates.closure _ _ heap) ?_
  refine .step ?_
  simp only [apply]
  exact (filter_yields items h 0 heap).bind (.pure _ heap)

/-! ## Texts -/

theorem mapM_joinText? (texts : List String) :
    (texts.map Data.string).mapM (joinText? world) = some texts := by
  induction texts with
  | nil => rfl
  | cons text rest ih => simp [joinText?, Data.text?, ih]

/-- The items of an array that have texts, joined. -/
theorem Evaluates.join {target : Expr} {items : List Data} {texts : List String}
    (separator : String) (ht : Evaluates world env target (.data (.array items)))
    (htexts : items.mapM (joinText? world) = some texts) :
    Evaluates world env (.invoke (.property target "join") [.string separator])
      (.data (.string (separated separator texts))) := by
  intro heap
  refine yields_method (ht heap) (world.get_join _) (Evaluates.string separator heap) ?_
  refine .step ?_
  simp only [apply, callNative, htexts]
  exact .pure _ heap

/-- The text of a truth value. -/
theorem Evaluates.booleanText {input : Expr} {value : Bool} (hfree : env.lookup? "String" = none)
    (hinput : Evaluates world env input (.data (.boolean value))) :
    Evaluates world env (.invoke (.identifier "String") [input])
      (.data (.string (Json.booleanText value))) := by
  intro heap
  have hcallee : Evaluates world env (.identifier "String") _ := .standard hfree rfl
  refine yields_invoke (evalCallee_identifier (hcallee heap))
    (evalAll_cons (hinput heap) evalAll_nil) ?_
  refine .step ?_
  simp only [apply, callNative, Data.text?]
  exact .pure _ heap

/-- A call of a function from outside that belongs to a value. -/
theorem Evaluates.host {owner input : Expr} {object value result : Data} {name function : String}
    (howner : Evaluates world env owner (.data object)) (hpresent : object.isPresent = true)
    (hfunction : world.get object name = .function (.host function))
    (hinput : Evaluates world env input (.data value))
    (hcall : world.call function object [value] = .ok result) :
    Evaluates world env (.invoke (.property owner name) [input]) (.data result) := by
  intro heap
  have hcallee := evalCallee_property (howner heap) hpresent name
  rw [hfunction] at hcallee
  refine yields_invoke hcallee (evalAll_cons (hinput heap) evalAll_nil) ?_
  have hdata : allData? [.data value] = some [value] := allData?_map [value]
  refine .step ?_
  simp only [apply, Value.toData, hdata]
  refine (Process.Yields.pure object heap).bind ?_
  simp only [hcall, Run.ofExcept]
  exact (Process.Yields.pure result heap).bind (.pure _ heap)

/-- What the standard serializer gives for a value. -/
theorem Evaluates.standardJson {input : Expr} {value result : Data}
    (hfree : env.lookup? "JSON" = none) (hinput : Evaluates world env input (.data value))
    (hresult : Runtime.standardJson world value = .ok result) :
    Evaluates world env (.standardJson input) (.data result) := by
  intro heap
  have hjson : Evaluates world env (.identifier "JSON") _ := .standard hfree rfl
  refine yields_invoke (evalCallee_property (hjson heap) rfl "stringify")
    (evalAll_cons (hinput heap) evalAll_nil) ?_
  have hget : world.get (.object [("stringify", .function (.native .stringify))]) "stringify" =
      .function (.native .stringify) := by simp [World.get, Data.own?]
  rw [hget]
  refine .step ?_
  simp only [apply, callNative, hresult, Run.ofExcept]
  exact .pure _ heap

/-- What a date gives for its written form. -/
theorem Evaluates.toJSON {input : Expr} {time : Float}
    (hinput : Evaluates world env input (.data (.date time))) :
    Evaluates world env (.invoke (.property input "toJSON") []) (.data (world.dateJson time)) := by
  intro heap
  refine yields_invoke (evalCallee_property (hinput heap) rfl "toJSON") evalAll_nil ?_
  refine .step ?_
  simp only [World.get, Data.own?, Option.getD_some, apply, callNative]
  exact .pure _ heap

/-- A choice between two expressions. -/
theorem Evaluates.conditional {condition whenTrue whenFalse : Expr} {value : Bool} {result : Value}
    (hcondition : Evaluates world env condition (.data (.boolean value)))
    (hresult : Evaluates world env (if value then whenTrue else whenFalse) result) :
    Evaluates world env (.conditional condition whenTrue whenFalse) result :=
  fun heap => yields_conditional (hcondition heap) (hresult heap)

end TypedRoutes.Runtime
