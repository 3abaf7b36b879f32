import TypedRoutes.Proofs.Generation.Names
import TypedRoutes.Proofs.Generation.Requests
import Mathlib.Data.Finset.Card
import Mathlib.Data.List.Induction

/-!
# Histories of a registry

What a registry answers over a whole run of requests and takings, in any order. The registry holds
no more than its history: the types are numbered as they were first asked for, and the helpers that
were taken, followed by those that wait, are the helpers that were asked for, each once and in that
order.
-/

namespace TypedRoutes

/-- What a helper is for: its kind and its type, whatever number the type has. -/
def Helper.pair (helper : Helper) : HelperKind × String := (helper.kind, helper.typeName)

namespace Registry

/-- What is done to a registry. -/
inductive Call where
  | request (kind : HelperKind) (typeName : String)
  | take
  deriving DecidableEq, Repr

/-- What a call answers: the name of the helper, or the helper that was taken if one waited. -/
inductive Answer where
  | named (helperName : String)
  | taken (helper? : Option Helper)
  deriving DecidableEq, Repr

/-- One call: its answer and the registry behind it. -/
def answer (registry : Registry) : Call → Answer × Registry
  | .request kind typeName =>
    let (helperName, next) := registry.request kind typeName
    (.named helperName, next)
  | .take =>
    match registry.nextPending with
    | none => (.taken none, registry)
    | some (helper, next) => (.taken (some helper), next)

/-- One more call behind a history. -/
def continued (history : List (Call × Answer) × Registry) (call : Call) :
    List (Call × Answer) × Registry :=
  (history.1 ++ [(call, (history.2.answer call).1)], (history.2.answer call).2)

/-- A run from the empty registry: the calls with their answers, and the registry at the end. -/
def run (calls : List Call) : List (Call × Answer) × Registry :=
  calls.foldl continued ([], empty)

/-- The helpers that were asked for, in order and as often as they were, by kind and type. -/
def asked (exchanges : List (Call × Answer)) : List (HelperKind × String) :=
  exchanges.filterMap fun exchange =>
    match exchange.1 with
    | .request kind typeName => some (kind, typeName)
    | .take => none

/-- The helpers that were taken, in order. -/
def takings (exchanges : List (Call × Answer)) : List Helper :=
  exchanges.filterMap fun exchange =>
    match exchange.2 with
    | .named _ => none
    | .taken helper? => helper?

/-- The helper of a kind for a type, with the number that the type has. -/
def helperFor (registry : Registry) (pair : HelperKind × String) : Helper :=
  ⟨pair.1, registry.indexOf pair.2, pair.2⟩

variable {exchanges : List (Call × Answer)} {registry : Registry}

/-! ## First occurrences -/

section FirstOccurrences

variable {α : Type} [BEq α] [LawfulBEq α]

/-- An item that is there already changes nothing about the first occurrences. -/
theorem eraseDups_concat_of_mem {items : List α} {item : α} (h : item ∈ items) :
    (items ++ [item]).eraseDups = items.eraseDups := by
  rw [List.eraseDups_append]
  simp [List.removeAll, h]

/-- A new item is one more first occurrence. -/
theorem eraseDups_concat_of_notMem {items : List α} {item : α} (h : item ∉ items) :
    (items ++ [item]).eraseDups = items.eraseDups ++ [item] := by
  rw [List.eraseDups_append]
  simp [List.removeAll, List.eraseDups_cons, h]

/-- First occurrences are all different. -/
theorem nodup_eraseDups (items : List α) : items.eraseDups.Nodup := by
  induction items using List.reverseRecOn with
  | nil => exact .nil
  | append_singleton front last ih =>
    by_cases hlast : last ∈ front
    · rwa [eraseDups_concat_of_mem hlast]
    · rw [eraseDups_concat_of_notMem hlast, List.nodup_append]
      refine ⟨ih, List.nodup_singleton last, ?_⟩
      rintro item hitem _ hmem rfl
      exact hlast (List.mem_eraseDups.mp (List.mem_singleton.mp hmem ▸ hitem))

end FirstOccurrences

/-! ## What one call keeps -/

/-- The registry holds what its history says. -/
structure Recorded (exchanges : List (Call × Answer)) (registry : Registry) : Prop where
  names : registry.names = ((asked exchanges).map Prod.snd).eraseDups
  requested : registry.requested = (asked exchanges).eraseDups.map registry.helperFor
  pending : takings exchanges ++ registry.pending = registry.requested
  answers : ∀ kind typeName answer, (Call.request kind typeName, answer) ∈ exchanges →
    answer = .named (kind.helperName (registry.indexOf typeName))

/-- What is asked in two histories is asked in both together. -/
theorem asked_append (exchanges others : List (Call × Answer)) :
    asked (exchanges ++ others) = asked exchanges ++ asked others :=
  List.filterMap_append

/-- What is taken in two histories is taken in both together. -/
theorem takings_append (exchanges others : List (Call × Answer)) :
    takings (exchanges ++ others) = takings exchanges ++ takings others :=
  List.filterMap_append

/-- A request in the history was asked. -/
theorem mem_asked_of_mem {kind : HelperKind} {typeName : String} {answer : Answer}
    (h : (Call.request kind typeName, answer) ∈ exchanges) : (kind, typeName) ∈ asked exchanges :=
  List.mem_filterMap.mpr ⟨_, h, rfl⟩

/-- The empty registry records the empty history. -/
theorem Recorded.empty : Recorded [] empty where
  names := rfl
  requested := rfl
  pending := rfl
  answers := nofun

namespace Recorded

variable (h : Recorded exchanges registry)
include h

/-- A name that was asked for is known. -/
theorem mem_names {pair : HelperKind × String} (hpair : pair ∈ asked exchanges) :
    pair.2 ∈ registry.names := by
  rw [h.names, List.mem_eraseDups]
  exact List.mem_map_of_mem hpair

/-- A helper is requested exactly if it was asked for. -/
theorem mem_requested_iff {pair : HelperKind × String} :
    registry.helperFor pair ∈ registry.requested ↔ pair ∈ asked exchanges := by
  rw [h.requested, List.mem_map]
  constructor
  · rintro ⟨other, hother, hhelper⟩
    simp only [helperFor, Helper.mk.injEq] at hhelper
    rw [← Prod.ext hhelper.1 hhelper.2.2]
    exact List.mem_eraseDups.mp hother
  · exact fun hpair => ⟨_, List.mem_eraseDups.mpr hpair, rfl⟩

/-- A helper that was asked for before does not wait again. -/
theorem request_again {kind : HelperKind} {typeName : String}
    (hasked : (kind, typeName) ∈ asked exchanges) : (registry.request kind typeName).2 =
      { registry with names := registry.withName typeName } := by
  rw [request_snd]
  exact if_pos (h.mem_requested_iff.mpr hasked)

/-- A helper that was not asked for before gets into line. -/
theorem request_first {kind : HelperKind} {typeName : String}
    (hasked : (kind, typeName) ∉ asked exchanges) : (registry.request kind typeName).2 =
      ⟨registry.withName typeName, registry.requested ++ [registry.helperFor (kind, typeName)],
        registry.pending ++ [registry.helperFor (kind, typeName)]⟩ := by
  rw [request_snd]
  exact if_neg (mt h.mem_requested_iff.mp hasked)

/-- The list of names goes on with a name that is new. -/
theorem withName_eq (kind : HelperKind) (typeName : String) : registry.withName typeName =
    ((asked exchanges ++ [(kind, typeName)]).map Prod.snd).eraseDups := by
  rw [withName, List.map_append, List.map_singleton]
  split
  · rename_i hknown
    rw [List.contains_iff_mem, h.names, List.mem_eraseDups] at hknown
    rw [eraseDups_concat_of_mem hknown, h.names]
  · rename_i hnew
    rw [List.contains_iff_mem, h.names, List.mem_eraseDups] at hnew
    rw [eraseDups_concat_of_notMem hnew, h.names]

/-- Numbers that were given stay, and with them the helpers that were asked for. -/
theorem map_helperFor {next : Registry} {typeName : String}
    (hnames : next.names = registry.withName typeName) :
    (asked exchanges).eraseDups.map next.helperFor = registry.requested := by
  rw [h.requested]
  refine List.map_congr_left fun pair hpair => ?_
  rw [helperFor, helperFor, indexOf, hnames,
    idxOf_withName (h.mem_names (List.mem_eraseDups.mp hpair)), indexOf]

/-- One more request is recorded. -/
theorem request (kind : HelperKind) (typeName : String) :
    Recorded (exchanges ++ [(.request kind typeName,
      .named (kind.helperName (registry.indexOf typeName)))])
        (registry.request kind typeName).2 := by
  have hasked : asked (exchanges ++ [(.request kind typeName,
      .named (kind.helperName (registry.indexOf typeName)))]) = asked exchanges ++
        [(kind, typeName)] :=
    asked_append _ _
  have htakings : takings (exchanges ++ [(.request kind typeName,
      .named (kind.helperName (registry.indexOf typeName)))]) = takings exchanges :=
    (takings_append _ _).trans (List.append_nil _)
  have hnames : (registry.request kind typeName).2.names = registry.withName typeName := by
    rw [request_snd]
    split <;> rfl
  have hself : (registry.request kind typeName).2.indexOf typeName = registry.indexOf typeName := by
    rw [indexOf, hnames, idxOf_withName_self]
  refine ⟨?_, ?_, ?_, ?_⟩
  · rw [hasked, hnames, h.withName_eq kind typeName]
  · rw [hasked]
    by_cases hpair : (kind, typeName) ∈ asked exchanges
    · rw [eraseDups_concat_of_mem hpair, h.map_helperFor hnames, h.request_again hpair]
    · rw [eraseDups_concat_of_notMem hpair, List.map_append, h.map_helperFor hnames,
        List.map_singleton, helperFor, hself, h.request_first hpair]
      rfl
  · rw [htakings]
    by_cases hpair : (kind, typeName) ∈ asked exchanges
    · rw [h.request_again hpair, h.pending]
    · rw [h.request_first hpair, ← List.append_assoc, h.pending]
  · intro other name answer hmem
    rcases List.mem_append.mp hmem with hold | hnew
    · rw [h.answers other name answer hold, indexOf, indexOf, hnames,
        idxOf_withName (h.mem_names (mem_asked_of_mem hold))]
    · cases List.mem_singleton.mp hnew
      rw [hself]

/-- The helper that is taken leaves the line at its front. -/
theorem take : Recorded (exchanges ++ [(.take, (registry.answer .take).1)])
    (registry.answer .take).2 := by
  have hasked (answer : Answer) : asked (exchanges ++ [(.take, answer)]) = asked exchanges := by
    rw [asked_append]
    exact List.append_nil _
  have hanswers (answer : Answer) : ∀ kind typeName given,
      (Call.request kind typeName, given) ∈ exchanges ++ [(.take, answer)] →
        given = .named (kind.helperName (registry.indexOf typeName)) := by
    intro kind typeName given hmem
    rcases List.mem_append.mp hmem with hold | hnew
    · exact h.answers kind typeName given hold
    · cases List.mem_singleton.mp hnew
  cases hpending : registry.pending with
  | nil =>
    have hstep : registry.answer .take = (.taken none, registry) := by
      rw [answer, nextPending, hpending]
    rw [hstep]
    refine ⟨?_, ?_, ?_, hanswers _⟩
    · rw [hasked, h.names]
    · rw [hasked, h.requested]
    · rw [takings_append, List.append_assoc, ← h.pending]
      rfl
  | cons helper rest =>
    have hstep : registry.answer .take =
        (.taken (some helper), { registry with pending := rest }) := by
      rw [answer, nextPending, hpending]
    rw [hstep]
    refine ⟨?_, ?_, ?_, hanswers _⟩
    · rw [hasked, h.names]
    · rw [hasked, h.requested]
      rfl
    · rw [takings_append, List.append_assoc, ← h.pending, hpending]
      rfl

/-- One more call is recorded. -/
theorem call (next : Call) :
    Recorded (exchanges ++ [(next, (registry.answer next).1)]) (registry.answer next).2 := by
  cases next with
  | request kind typeName => exact h.request kind typeName
  | take => exact h.take

end Recorded

/-! ## Whole runs -/

/-- One more call goes on from the state that the others leave. -/
theorem run_concat (calls : List Call) (call : Call) :
    run (calls ++ [call]) = continued (run calls) call :=
  List.foldl_concat ..

/-- Every registry records the history that led to it. -/
theorem recorded_run (calls : List Call) : Recorded (run calls).1 (run calls).2 := by
  induction calls using List.reverseRecOn with
  | nil => exact .empty
  | append_singleton front call ih =>
    rw [run_concat]
    exact ih.call call

/-- The history of calls holds these calls. -/
theorem map_fst_run (calls : List Call) : (run calls).1.map Prod.fst = calls := by
  induction calls using List.reverseRecOn with
  | nil => rfl
  | append_singleton front call ih => rw [run_concat, continued, List.map_append, ih,
      List.map_singleton]

/-- A call leaves the numbers that were given. -/
theorem names_prefix_answer (registry : Registry) (call : Call) :
    registry.names <+: (registry.answer call).2.names := by
  cases call with
  | request kind typeName =>
    have hnames : (registry.answer (.request kind typeName)).2.names =
        registry.withName typeName := by
      rw [answer, request_snd]
      split <;> rfl
    rw [hnames, withName]
    split
    · exact List.prefix_rfl
    · exact List.prefix_append _ _
  | take =>
    rw [answer, nextPending]
    split
    · exact List.prefix_rfl
    · rename_i helper next hnext
      split at hnext
      · cases hnext
      · cases hnext
        exact List.prefix_rfl

/-- Later calls leave answers and names as they were. -/
theorem run_prefix (calls later : List Call) : (run calls).1 <+: (run (calls ++ later)).1 ∧
    (run calls).2.names <+: (run (calls ++ later)).2.names := by
  induction later using List.reverseRecOn with
  | nil => rw [List.append_nil]; exact ⟨List.prefix_rfl, List.prefix_rfl⟩
  | append_singleton front call ih =>
    rw [← List.append_assoc, run_concat]
    exact ⟨ih.1.trans (List.prefix_append _ _), ih.2.trans (names_prefix_answer _ call)⟩

/-- What the history of a registry promises of it. -/
structure Faithful (exchanges : List (Call × Answer)) (registry : Registry) : Prop where
  /-- The types are numbered from zero in the order of their first requests. -/
  numbered : registry.names = ((asked exchanges).map Prod.snd).eraseDups
  counted : registry.size = ((asked exchanges).map Prod.snd).toFinset.card
  /-- The name of a helper is what its kind starts with and the number of its type. -/
  named : ∀ kind typeName answer, (Call.request kind typeName, answer) ∈ exchanges →
    ∃ index : Nat, registry.names[index]? = some typeName ∧
      answer = .named (kind.stem ++ index.repr)
  distinct : ∀ kind typeName answer other otherName otherAnswer,
    (Call.request kind typeName, answer) ∈ exchanges →
      (Call.request other otherName, otherAnswer) ∈ exchanges →
        (answer = otherAnswer ↔ kind = other ∧ typeName = otherName)
  /-- Helpers are taken in the order of their first requests, with their own number and type. -/
  inOrder : takings exchanges <+: (asked exchanges).eraseDups.map registry.helperFor
  once : ((takings exchanges).map Helper.pair).Nodup
  exhausted : registry.nextPending = none ↔ ∀ pair ∈ asked exchanges,
    ∃ helper ∈ takings exchanges, helper.pair = pair
  /-- The number of a helper, taken or waiting, is the place of its type among the names. -/
  placed : ∀ helper ∈ takings exchanges ++ registry.pending,
    registry.names[helper.index]? = some helper.typeName

namespace Recorded

variable (h : Recorded exchanges registry)
include h

/-- The number of a name leads back to the name. -/
theorem getElem?_indexOf {pair : HelperKind × String} (hpair : pair ∈ asked exchanges) :
    registry.names[registry.indexOf pair.2]? = some pair.2 := by
  have hlt := List.idxOf_lt_length_of_mem (h.mem_names hpair)
  rw [indexOf, List.getElem?_eq_getElem hlt, List.getElem_idxOf hlt]

/-- The helpers that were taken and those that wait are those that were asked for, each once. -/
theorem map_pair : (takings exchanges).map Helper.pair ++ registry.pending.map Helper.pair =
    (asked exchanges).eraseDups := by
  rw [← List.map_append, h.pending, h.requested, List.map_map]
  exact List.map_id _

/-- The line is empty when everything that was asked for was taken. -/
theorem nextPending_eq_none_iff : registry.nextPending = none ↔
    ∀ pair ∈ asked exchanges, ∃ helper ∈ takings exchanges, helper.pair = pair := by
  have hline : registry.nextPending = none ↔ registry.pending = [] := by
    rw [nextPending]
    split <;> simp [*]
  rw [hline]
  constructor
  · intro hempty pair hpair
    have hall := h.map_pair
    rw [hempty, List.map_nil, List.append_nil] at hall
    rw [← List.mem_eraseDups, ← hall] at hpair
    exact List.mem_map.mp hpair
  · intro htaken
    -- a helper that waits would have been taken too
    have hnodup := nodup_eraseDups (asked exchanges)
    rw [← h.map_pair, List.nodup_append] at hnodup
    refine List.eq_nil_iff_forall_not_mem.mpr fun helper hhelper => ?_
    have hwaits : helper.pair ∈ registry.pending.map Helper.pair := List.mem_map_of_mem hhelper
    have hasked : helper.pair ∈ asked exchanges := by
      rw [← List.mem_eraseDups, ← h.map_pair]
      exact List.mem_append_right _ hwaits
    obtain ⟨other, hother, hpair⟩ := htaken _ hasked
    exact hnodup.2.2 _ (List.mem_map_of_mem hother) _ hwaits hpair

/-- A registry that records a history is faithful to it. -/
theorem faithful : Faithful exchanges registry where
  numbered := h.names
  counted := by
    rw [size, h.names, ← List.toFinset_card_of_nodup (nodup_eraseDups _)]
    congr 1
    ext name
    simp only [List.mem_toFinset, List.mem_eraseDups]
  named := fun kind typeName answer hmem =>
    ⟨registry.indexOf typeName, h.getElem?_indexOf (mem_asked_of_mem hmem),
      h.answers kind typeName answer hmem⟩
  distinct := by
    intro kind typeName answer other otherName otherAnswer hmem hother
    rw [h.answers _ _ _ hmem, h.answers _ _ _ hother, Answer.named.injEq, HelperKind.helperName_inj,
      indexOf, indexOf, List.idxOf_inj (h.mem_names (mem_asked_of_mem hmem))]
  inOrder := by
    rw [← h.requested, ← h.pending]
    exact List.prefix_append _ _
  once := by
    have hnodup := nodup_eraseDups (asked exchanges)
    rw [← h.map_pair] at hnodup
    exact hnodup.of_append_left
  exhausted := h.nextPending_eq_none_iff
  placed := by
    intro helper hhelper
    rw [h.pending, h.requested, List.mem_map] at hhelper
    obtain ⟨pair, hpair, rfl⟩ := hhelper
    exact h.getElem?_indexOf (List.mem_eraseDups.mp hpair)

end Recorded

/-- Whatever is done to a registry from the start: the calls are answered one by one, the registry
is what its history promises, and no later call changes an answer or a number. -/
theorem run_faithful (calls later : List Call) : (run calls).1.map Prod.fst = calls ∧
    Faithful (run calls).1 (run calls).2 ∧ (run calls).1 <+: (run (calls ++ later)).1 ∧
      (run calls).2.names <+: (run (calls ++ later)).2.names :=
  ⟨map_fst_run calls, (recorded_run calls).faithful, run_prefix calls later⟩

-- a body that asks for its own helper while it is generated
example : (run [.request .check "Node", .request .validate "Node", .take,
    .request .check "Node", .take,
    .take]).1.map Prod.snd =
      [.named "$io0", .named "$vo0", .taken (some ⟨.check, 0, "Node"⟩), .named "$io0",
        .taken (some ⟨.validate, 0, "Node"⟩), .taken none] := by decide

end Registry

end TypedRoutes
