import TypedRoutes.Proofs.Decimal.Naturals
import TypedRoutes.Proofs.Generation.Names
import TypedRoutes.Proofs.Runtime.Machine

/-!
# Positions

Positions and lengths are numbers of the running program. The bound on arrays keeps them apart.
-/

namespace TypedRoutes.Runtime

theorem position_beq {a b : Nat} (h : a < arrayBound ∨ b < arrayBound) :
    (Float.ofNat a == Float.ofNat b) = true ↔ a = b :=
  Decimal.ofNat_beq_ofNat h

/-- The item whose position has a name, as long as no other position has it. -/
theorem find?_zipIdx {β : Type} [BEq β] (name : Nat → β) (items : List Data) (n start : Nat)
    (h : ∀ i < start + items.length, (name i == name (start + n)) = true ↔ i = start + n) :
    ((items.zipIdx start).find? fun item => name item.2 == name (start + n)).map Prod.fst =
      items[n]? := by
  induction items generalizing start n with
  | nil => simp
  | cons item rest ih =>
    rw [List.length_cons] at h
    have hfirst := h start (by omega)
    rw [List.zipIdx_cons, List.find?_cons]
    cases n with
    | zero =>
      rw [Nat.add_zero] at hfirst ⊢
      rw [hfirst.mpr rfl]
      rfl
    | succ n =>
      have hother : (name start == name (start + (n + 1))) = false := by
        rw [Bool.eq_false_iff, ne_eq, hfirst]
        omega
      have hstart : start + 1 + n = start + (n + 1) := by omega
      have hrest := ih n (start + 1) fun i hi => by
        rw [hstart]
        exact h i (by omega)
      rw [hstart] at hrest
      simpa [hother] using hrest

/-- The item at a position of an array. -/
theorem itemAt?_ofNat {items : List Data} (h : items.length < arrayBound) (n : Nat) :
    itemAt? items (Float.ofNat n) = items[n]? := by
  have hfind := find?_zipIdx Float.ofNat items n 0 fun i hi => position_beq (.inl (by omega))
  rwa [Nat.zero_add] at hfind

theorem World.item_ofNat {items : List Data} (h : items.length < arrayBound) {n : Nat}
    (hn : n < items.length) (world : World) : world.item items (Float.ofNat n) = items[n] := by
  rw [World.item, itemAt?_ofNat h, List.getElem?_eq_getElem hn, Option.getD_some]

/-- The item under the numeral of a position. -/
theorem itemNamed?_naturalText (items : List Data) (n : Nat) :
    itemNamed? items (Decimal.naturalText n) = items[n]? := by
  have hfind := find?_zipIdx Decimal.naturalText items n 0 fun i _ => by
    rw [beq_iff_eq, Decimal.naturalText_inj]
  rwa [Nat.zero_add] at hfind

end TypedRoutes.Runtime
