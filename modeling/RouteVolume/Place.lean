import RouteVolume.Fault

namespace RouteVolume

/-- The place to which a number points in a list of a given length; a negative number counts from the
back. -/
def place (size : Nat) (k : Int) : Except Fault Nat :=
  let fromFront := if k < 0 then k + size else k
  if 0 ≤ fromFront ∧ fromFront < size then .ok fromFront.toNat
  else if fitsWord k then .error .missingIndex
  else .error .vastIndex

theorem place_eq_ok_iff {size j : Nat} {k : Int} :
    place size k = .ok j ↔ j < size ∧ (k = j ∨ k = j - size) := by
  have decided (fromFront : Int) :
      ((if 0 ≤ fromFront ∧ fromFront < size then .ok fromFront.toNat
        else if fitsWord k then .error .missingIndex
        else .error .vastIndex : Except Fault Nat) = .ok j) ↔ j < size ∧ fromFront = j := by
    by_cases within : 0 ≤ fromFront ∧ fromFront < size
    · rw [if_pos within, Except.ok.injEq]
      omega
    · rw [if_neg within]
      have refused : (if fitsWord k then .error .missingIndex
          else .error .vastIndex : Except Fault Nat) ≠ .ok j := by
        split <;> exact nofun
      simp only [refused, false_iff]
      omega
  rw [place, decided]
  split <;> omega

theorem place_natCast {size k : Nat} (within : k < size) : place size k = .ok k :=
  place_eq_ok_iff.mpr ⟨within, .inl rfl⟩

theorem bounds_of_place {size j : Nat} {k : Int} (points : place size k = .ok j) :
    -(size : Int) ≤ k ∧ k < size := by
  have := place_eq_ok_iff.mp points
  omega

theorem filterMap_getElem?_range {α : Type} (xs : List α) {n : Nat} (enough : xs.length ≤ n) :
    (List.range n).filterMap (xs[·]?) = xs := by
  induction xs generalizing n with
  | nil => simp
  | cons x rest ih =>
    cases n with
    | zero => cases enough
    | succ n =>
      rw [List.range_succ_eq_map, List.filterMap_cons, List.getElem?_cons_zero, List.filterMap_map]
      exact congrArg (x :: ·) (ih (Nat.le_of_succ_le_succ enough))

end RouteVolume
