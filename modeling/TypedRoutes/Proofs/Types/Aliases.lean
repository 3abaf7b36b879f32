import TypedRoutes.Proofs.Types.Unknown
import TypedRoutes.Types.Flags
import Mathlib.Data.Fintype.Pigeonhole
import Mathlib.Data.Set.Finite.Basic

/-!
# Chains of references

A reference stands for a definition, which may be a reference again. Such a chain ends in a type
that is no reference, or at a name without definition, or it comes back to a type that it has
passed. The flags of a type are those of the end of its chain, and none where there is no end or it
is too far away.
-/

namespace TypedRoutes

/-- The name that a reference is to. -/
def Ty.reference? (type : Ty) : Option String :=
  match type.kind with
  | .reference name => some name
  | _ => none

/-- The definition that a reference stands for. -/
def Ty.aliased? (definitions : TypeTable) (type : Ty) : Option Ty :=
  type.reference?.bind definitions.get?

/-- The type that so many references in a row lead to. -/
def Ty.aliasAt? (definitions : TypeTable) (type : Ty) : Nat → Option Ty
  | 0 => some type
  | steps + 1 => (type.aliasAt? definitions steps).bind (Ty.aliased? definitions)

/-- The chain of references ends, after so many steps, in a type that is no reference. -/
structure Ty.EndsAt (definitions : TypeTable) (type : Ty) (steps : Nat) (target : Ty) : Prop where
  reached : type.aliasAt? definitions steps = some target
  final : target.reference? = none

/-- The chain of references meets a name without definition. -/
def Ty.Dangles (definitions : TypeTable) (type : Ty) : Prop :=
  ∃ steps last name, type.aliasAt? definitions steps = some last ∧ last.reference? = some name ∧
    definitions.get? name = none

/-- The chain of references comes back to a type that it has passed. -/
def Ty.Cycles (definitions : TypeTable) (type : Ty) : Prop :=
  ∃ first second again, first < second ∧ type.aliasAt? definitions first = some again ∧
    type.aliasAt? definitions second = some again

/-- Kinds whose values are objects, and no arrays. -/
def TyKind.isPlain : TyKind → Bool
  | .object _ | .record _ | .function | .date | .promise _ => true
  | _ => false

/-- The flags of a kind by itself. -/
def TyKind.flags : TyKind → TypeFlags
  | .array _ => { object := true, array := true, arrayLike := true }
  | .tuple _ => { object := true, tuple := true, arrayLike := true }
  | kind => { object := kind.isPlain }

variable {definitions : TypeTable} {type target : Ty} {steps : Nat}

/-! ## Ends of chains -/

namespace Ty

/-- The first step of a chain, and the chain behind it. -/
theorem aliasAt?_succ (definitions : TypeTable) (type : Ty) (steps : Nat) :
    type.aliasAt? definitions (steps + 1) =
      (type.aliased? definitions).bind fun next => next.aliasAt? definitions steps := by
  induction steps with
  | zero => exact (Option.bind_fun_some _).symm
  | succ steps ih => rw [aliasAt?, ih, Option.bind_assoc]; rfl

/-- Following a chain of aliases for some steps and then for more of them. -/
theorem aliasAt?_add (h : type.aliasAt? definitions steps = some target) (more : Nat) :
    type.aliasAt? definitions (steps + more) = target.aliasAt? definitions more := by
  induction more with
  | zero => exact h
  | succ more ih => rw [← Nat.add_assoc, aliasAt?, ih]; rfl

/-- Nothing comes behind the end of a chain. -/
theorem aliasAt?_eq_none (h : type.aliasAt? definitions steps = some target)
    (hnone : target.aliased? definitions = none) {later : Nat} (hlater : steps < later) :
    type.aliasAt? definitions later = none := by
  obtain ⟨more, rfl⟩ := Nat.exists_eq_add_of_lt hlater
  rw [Nat.add_assoc, aliasAt?_add h, aliasAt?_succ, hnone]
  rfl

namespace EndsAt

/-- What a chain ends at is no alias of anything. -/
theorem aliased? (h : type.EndsAt definitions steps target) :
    target.aliased? definitions = none := by
  rw [Ty.aliased?, h.final]
  rfl

/-- All that a chain passes lies in front of its end. -/
theorem le (h : type.EndsAt definitions steps target) {other : Nat} {passed : Ty}
    (hpassed : type.aliasAt? definitions other = some passed) : other ≤ steps := by
  by_contra hlater
  rw [aliasAt?_eq_none h.reached h.aliased? (Nat.lt_of_not_le hlater)] at hpassed
  cases hpassed

/-- A chain ends once. -/
theorem unique (h : type.EndsAt definitions steps target) {other : Nat} {last : Ty}
    (hlast : type.EndsAt definitions other last) : steps = other ∧ target = last := by
  obtain rfl := Nat.le_antisymm (hlast.le h.reached) (h.le hlast.reached)
  exact ⟨rfl, Option.some.inj (h.reached.symm.trans hlast.reached)⟩

end EndsAt

/-- A chain that breaks off at an unknown name has no end. -/
theorem Dangles.not_endsAt (h : type.Dangles definitions) :
    ¬ type.EndsAt definitions steps target := by
  obtain ⟨other, last, name, hlast, hname, hundefined⟩ := h
  have hnone : last.aliased? definitions = none := by
    rw [Ty.aliased?, hname, Option.bind_some, hundefined]
  intro hend
  rcases Nat.lt_or_eq_of_le (hend.le hlast) with hlt | rfl
  · have hreached := hend.reached
    rw [aliasAt?_eq_none hlast hnone hlt] at hreached
    cases hreached
  · obtain rfl := Option.some.inj (hend.reached.symm.trans hlast)
    rw [hend.final] at hname
    cases hname

/-- Behind the second visit the chain is as long as behind the first one. -/
theorem Cycles.not_endsAt (h : type.Cycles definitions) :
    ¬ type.EndsAt definitions steps target := by
  obtain ⟨first, second, again, hlt, hfirst, hsecond⟩ := h
  intro hend
  obtain ⟨more, rfl⟩ := Nat.exists_eq_add_of_le (hend.le hfirst)
  have hlater := hend.reached
  rw [aliasAt?_add hfirst, ← aliasAt?_add hsecond] at hlater
  have hle := hend.le hlater
  omega

/-- There are finitely many definitions, so a chain that goes on comes back. -/
theorem dangles_or_cycles_or_endsAt (definitions : TypeTable) (type : Ty) :
    type.Dangles definitions ∨ type.Cycles definitions ∨
      ∃ steps target, type.EndsAt definitions steps target := by
  by_contra hnot
  simp only [not_or, not_exists] at hnot
  obtain ⟨hdangles, hcycles, hends⟩ := hnot
  have hgoes (steps : Nat) (last : Ty) (hlast : type.aliasAt? definitions steps = some last) :
      ∃ next ∈ definitions.entries.map Prod.snd,
        type.aliasAt? definitions (steps + 1) = some next := by
    cases hname : last.reference? with
    | none => exact absurd ⟨hlast, hname⟩ (hends steps last)
    | some name =>
      cases hget : definitions.get? name with
      | none => exact absurd ⟨steps, last, name, hlast, hname, hget⟩ hdangles
      | some next =>
        refine ⟨next, List.mem_map.mpr ⟨_, KeyMap.get?_eq_some_iff.mp hget, rfl⟩, ?_⟩
        rw [aliasAt?, hlast, Option.bind_some, Ty.aliased?, hname, Option.bind_some, hget]
  have hpasses (steps : Nat) : ∃ next ∈ definitions.entries.map Prod.snd,
      type.aliasAt? definitions (steps + 1) = some next := by
    induction steps with
    | zero => exact hgoes 0 type rfl
    | succ steps ih =>
      obtain ⟨next, -, hnext⟩ := ih
      exact hgoes _ next hnext
  choose passed hdefined hpassed using hpasses
  have hfinite : Finite { next : Ty // next ∈ definitions.entries.map Prod.snd } :=
    List.finite_toSet _
  obtain ⟨first, second, hne, heq⟩ := Finite.exists_ne_map_eq_of_infinite
    fun steps => (⟨passed steps, hdefined steps⟩ : { next : Ty // next ∈ _ })
  have hsame : passed first = passed second := congrArg Subtype.val heq
  rcases Nat.lt_or_gt_of_ne hne with hlt | hlt
  · exact hcycles ⟨first + 1, second + 1, passed first, Nat.succ_lt_succ hlt, hpassed first,
      hsame ▸ hpassed second⟩
  · exact hcycles ⟨second + 1, first + 1, passed second, Nat.succ_lt_succ hlt, hpassed second,
      hsame ▸ hpassed first⟩

end Ty

/-! ## Flags along a chain -/

namespace TypeFlags

/-- A type that is no reference is classified by its own kind. -/
theorem within_of_final (h : type.reference? = Option.none) (steps : Nat) :
    within definitions steps type = type.kind.flags := by
  obtain ⟨kind, aliasName⟩ := type
  cases kind with
  | reference name => cases h
  | _ => cases steps <;> rfl

theorem within_zero_of_reference {name : String} (h : type.reference? = some name) :
    within definitions 0 type = .none := by
  obtain ⟨kind, aliasName⟩ := type
  cases kind with
  | reference name => rfl
  | _ => cases h

theorem within_succ_of_reference {name : String} (h : type.reference? = some name) (steps : Nat) :
    within definitions (steps + 1) type =
      match type.aliased? definitions with
      | some next => within definitions steps next
      | Option.none => .none := by
  obtain ⟨kind, aliasName⟩ := type
  cases kind with
  | reference other => rfl
  | _ => cases h

/-- The end of a chain that is near enough gives the flags. -/
theorem within_of_endsAt {limit : Nat} (h : type.EndsAt definitions steps target)
    (hsteps : steps ≤ limit) : within definitions limit type = target.kind.flags := by
  induction steps generalizing type limit with
  | zero =>
    obtain rfl := Option.some.inj h.reached
    exact within_of_final h.final limit
  | succ steps ih =>
    obtain ⟨next, hnext, hreached⟩ :=
      Option.bind_eq_some_iff.mp ((Ty.aliasAt?_succ definitions type steps).symm.trans h.reached)
    obtain ⟨name, hname, -⟩ := Option.bind_eq_some_iff.mp hnext
    obtain ⟨before, rfl⟩ := Nat.exists_eq_add_of_le' (Nat.le_trans (Nat.succ_pos steps) hsteps)
    rw [within_succ_of_reference hname, hnext]
    exact ih ⟨hreached, h.final⟩ (Nat.le_of_succ_le_succ hsteps)

/-- Without an end that is near enough there are no flags. -/
theorem within_eq_none {limit : Nat}
    (h : ∀ steps ≤ limit, ∀ target, ¬ type.EndsAt definitions steps target) :
    within definitions limit type = .none := by
  cases hname : type.reference? with
  | none => exact absurd ⟨rfl, hname⟩ (h 0 (Nat.zero_le limit) type)
  | some name =>
    induction limit generalizing type name with
    | zero => exact within_zero_of_reference hname
    | succ limit ih =>
      rw [within_succ_of_reference hname]
      cases hnext : type.aliased? definitions with
      | none => rfl
      | some next =>
        have hbehind (steps : Nat) (hsteps : steps ≤ limit) (target : Ty) :
            ¬ next.EndsAt definitions steps target := by
          rintro ⟨hreached, hfinal⟩
          refine h (steps + 1) (Nat.succ_le_succ hsteps) target ⟨?_, hfinal⟩
          rw [Ty.aliasAt?_succ, hnext, Option.bind_some, hreached]
        cases hother : next.reference? with
        | none => exact absurd ⟨rfl, hother⟩ (hbehind 0 (Nat.zero_le limit) next)
        | some other => exact ih hbehind other hother

/-- The flags of a kind do not contradict each other. -/
theorem flags_consistent (kind : TyKind) :
    (kind.flags.array && kind.flags.tuple) = false ∧
      (kind.flags.array = true ∨ kind.flags.tuple = true →
        kind.flags.object = true ∧ kind.flags.arrayLike = true) := by
  cases kind <;> simp [TyKind.flags]

theorem isPlainObject_flags (kind : TyKind) : kind.flags.isPlainObject = kind.isPlain := by
  cases kind <;> rfl

/-- Every chain of references ends in a type that is no reference, meets a name without definition
or comes back. A type has the flags of the end of its chain if that is at most 32 references away,
and no flags otherwise. No type is an array and a tuple, both are objects and like arrays, and a
type is a plain object exactly when its chain ends, near enough, in an object, a record, a function,
a date or a promise. -/
theorem classify_follows (definitions : TypeTable) (type : Ty) :
    (type.Dangles definitions ∨ type.Cycles definitions ∨
      ∃ steps target, type.EndsAt definitions steps target) ∧
    (∀ steps target, type.EndsAt definitions steps target →
      classify definitions type = if steps ≤ 32 then target.kind.flags else .none) ∧
    (type.Dangles definitions → classify definitions type = .none) ∧
    (type.Cycles definitions → classify definitions type = .none) ∧
    ((classify definitions type).array && (classify definitions type).tuple) = false ∧
    ((classify definitions type).array = true ∨ (classify definitions type).tuple = true →
      (classify definitions type).object = true ∧ (classify definitions type).arrayLike = true) ∧
    ((classify definitions type).isPlainObject = true ↔
      ∃ steps ≤ 32, ∃ target, type.EndsAt definitions steps target ∧
      target.kind.isPlain = true) := by
  have hends (steps : Nat) (target : Ty) (hend : type.EndsAt definitions steps target) :
      classify definitions type = if steps ≤ 32 then target.kind.flags else .none := by
    split
    · exact within_of_endsAt hend ‹_›
    · rename_i hfar
      refine within_eq_none fun other hother last hlast => hfar ?_
      rw [(hend.unique hlast).1]
      exact hother
  have hnone (h : ∀ steps target, ¬ type.EndsAt definitions steps target) :
      classify definitions type = .none :=
    within_eq_none fun steps _ target => h steps target
  refine ⟨Ty.dangles_or_cycles_or_endsAt definitions type, hends,
    fun h => hnone fun _ _ => h.not_endsAt, fun h => hnone fun _ _ => h.not_endsAt, ?_⟩
  -- all flags are those of the end of the chain, or none of them is set
  by_cases hnear : ∃ steps ≤ 32, ∃ target, type.EndsAt definitions steps target
  · obtain ⟨steps, hsteps, target, hend⟩ := hnear
    have hflags := hends steps target hend
    rw [if_pos hsteps] at hflags
    rw [hflags, isPlainObject_flags]
    refine ⟨(flags_consistent target.kind).1, (flags_consistent target.kind).2,
      fun hplain => ⟨steps, hsteps, target, hend, hplain⟩, ?_⟩
    rintro ⟨other, -, last, hlast, hplain⟩
    rw [(hend.unique hlast).2]
    exact hplain
  · have hflags : classify definitions type = .none :=
      within_eq_none fun steps hsteps target hend => hnear ⟨steps, hsteps, target, hend⟩
    rw [hflags]
    refine ⟨rfl, by simp [none], by simp [none, isPlainObject], ?_⟩
    rintro ⟨steps, hsteps, target, hend, -⟩
    exact absurd ⟨steps, hsteps, target, hend⟩ hnear

/-- Options behind two names. -/
def optionsTable : TypeTable :=
  KeyMap.ofList [("Options", (TyKind.object []).type),
    ("Settings", (TyKind.reference "Options").type),
    ("Loop", (TyKind.reference "Loop").type)]

theorem classify_follows_settings :
    (TyKind.reference "Settings").type.EndsAt optionsTable 2 (TyKind.object []).type ∧
      classify optionsTable (TyKind.reference "Settings").type = { object := true } ∧
      (TyKind.reference "Loop").type.Cycles optionsTable ∧
      classify optionsTable (TyKind.reference "Loop").type = .none := by
  have hsettings : (TyKind.reference "Settings").type.EndsAt optionsTable 2
      (TyKind.object []).type :=
    ⟨rfl, rfl⟩
  have hloop : (TyKind.reference "Loop").type.Cycles optionsTable :=
    ⟨0, 1, _, Nat.zero_lt_one, rfl, rfl⟩
  exact ⟨hsettings, (classify_follows optionsTable _).2.1 2 _ hsettings, hloop,
    (classify_follows optionsTable _).2.2.2.1 hloop⟩

end TypeFlags

end TypedRoutes
