import RouteVolume.Proofs.Box.Order
import RouteVolume.Proofs.Cover.Union

namespace RouteVolume

namespace Box

theorem apart_cons {first : Box} {rest : List Box} :
    Apart (first :: rest) ↔ (∀ b ∈ rest, ∀ p, ¬ (p ∈ first ∧ p ∈ b)) ∧ Apart rest :=
  List.pairwise_cons

theorem apart_live_iff {boxes : List Box} : Apart (Cover.live boxes) ↔ Apart boxes := by
  unfold Apart Cover.live
  rw [List.pairwise_filter]
  constructor
  · intro apart
    refine apart.imp fun disjoint p both => ?_
    exact disjoint ((isFeasible_iff _).mpr ⟨p, both.1⟩) ((isFeasible_iff _).mpr ⟨p, both.2⟩) p both
  · exact fun apart => apart.imp fun disjoint _ _ => disjoint

end Box

namespace Cover

def held (boxes : List Box) : Finset Point := filled (boxes.map (·.ranges))

theorem mem_held {boxes : List Box} {p : Point} : p ∈ held boxes ↔ ∃ b ∈ boxes, p ∈ b := by
  unfold held
  rw [mem_filled]
  simp only [List.mem_map, exists_exists_and_eq_and, Box.mem_grid]
  rfl

theorem coe_held (boxes : List Box) : (held boxes : Set Point) = {p : Point | ∃ b ∈ boxes, p ∈ b} := by
  ext p
  exact mem_held

theorem held_cons (first : Box) (rest : List Box) :
    held (first :: rest) = first.points ∪ held rest := by
  ext p
  rw [Finset.mem_union, mem_held, mem_held, Box.mem_points]
  exact List.exists_mem_cons_iff _ _ _

theorem card_held_cons (first : Box) (rest : List Box) :
    (held (first :: rest)).card + (first.points ∩ held rest).card =
      first.volume + (held rest).card := by
  -- One box more brings its points, less those that were there before.
  rw [held_cons, Finset.card_union_add_card_inter, Box.card_points]

theorem naive_cons (first : Box) (rest : List Box) :
    naive (first :: rest) = first.volume + naive rest := rfl

theorem card_held_le_naive (boxes : List Box) : (held boxes).card ≤ naive boxes := by
  induction boxes with
  | nil => exact Nat.le_refl 0
  | cons first rest ih =>
    have split := card_held_cons first rest
    rw [naive_cons]
    omega

theorem card_held_eq_naive_iff {boxes : List Box} :
    (held boxes).card = naive boxes ↔ Box.Apart boxes := by
  induction boxes with
  | nil => exact iff_of_true rfl List.Pairwise.nil
  | cons first rest ih =>
    have split := card_held_cons first rest
    have bound := card_held_le_naive rest
    -- Both parts of the excess are zero, or neither sum is reached.
    have parts : (held (first :: rest)).card = naive (first :: rest) ↔
        (first.points ∩ held rest).card = 0 ∧ (held rest).card = naive rest := by
      rw [naive_cons]
      omega
    have fresh : (first.points ∩ held rest).card = 0 ↔ ∀ b ∈ rest, ∀ p, ¬ (p ∈ first ∧ p ∈ b) := by
      rw [Finset.card_eq_zero, Finset.eq_empty_iff_forall_notMem]
      simp only [Finset.mem_inter, Box.mem_points, mem_held]
      constructor
      · exact fun none b mem p both => none p ⟨both.1, b, mem, both.2⟩
      · exact fun none p ⟨here, b, mem, there⟩ => none b mem p ⟨here, there⟩
    rw [parts, fresh, ih, Box.apart_cons]

theorem union_eq_card_held {boxes : List Box} (agree : Agree boxes) :
    union boxes = .ok (held boxes).card := by
  obtain ⟨n, counted, size⟩ := union_of_agree agree
  rw [← coe_held, Set.encard_coe_eq_coe_finsetCard, Nat.cast_inj] at size
  rw [counted, size]

/-- The union of boxes has at most the sum of their volumes, and as much exactly if no two boxes that
hold any points, at two places of the list, have a point in common. It has at least the volume of
each box, and no more than that of a box that holds all the others. -/
theorem union_against_naive {boxes : List Box} (agree : Agree boxes) :
    ∃ n : Nat, union boxes = .ok n ∧ n ≤ naive boxes ∧
      (n = naive boxes ↔ Box.Apart (live boxes)) ∧
      ∀ b ∈ boxes, b.volume ≤ n ∧ ((∀ other ∈ boxes, ∀ p ∈ other, p ∈ b) → n = b.volume) := by
  refine ⟨_, union_eq_card_held agree, card_held_le_naive boxes, ?_, fun b mem => ?_⟩
  · rw [card_held_eq_naive_iff, Box.apart_live_iff]
  · have part : b.points ⊆ held boxes := by
      intro p within
      exact mem_held.mpr ⟨b, mem, Box.mem_points.mp within⟩
    rw [← Box.card_points]
    refine ⟨Finset.card_le_card part, fun contains => ?_⟩
    apply congrArg Finset.card
    apply Finset.Subset.antisymm _ part
    intro p within
    obtain ⟨other, inside, there⟩ := mem_held.mp within
    exact Box.mem_points.mpr (contains other inside p there)

/-- A box within another one, and between them one without points and with another axis. -/
def nested : List Box :=
  [⟨["x", "a"], [⟨2, 3⟩, ⟨2, 4⟩], rfl⟩, ⟨["m"], [⟨3, 1⟩], rfl⟩,
    ⟨["x", "a"], [⟨1, 4⟩, ⟨1, 5⟩], rfl⟩]

theorem union_of_nested : Agree nested ∧ naive nested = 26 ∧ union nested = .ok 20 ∧
    ¬ Box.Apart (live nested) := by
  have agree : Agree nested := by
    unfold Agree
    decide
  obtain ⟨n, counted, _, same, each⟩ := union_against_naive agree
  have outer : n = 20 := by
    refine (each ⟨["x", "a"], [⟨1, 4⟩, ⟨1, 5⟩], rfl⟩ (by decide)).2 fun other mem p within => ?_
    simp only [nested, List.mem_cons, List.not_mem_nil, or_false] at mem
    rcases mem with rfl | rfl | rfl
    · simp only [Box.mem_def, Interval.mem_def, List.forall₂_cons_right_iff] at within ⊢
      obtain ⟨x, q, inX, ⟨m, r, inM, behind, rfl⟩, rfl⟩ := within
      exact ⟨x, _, by omega, ⟨m, _, by omega, behind, rfl⟩, rfl⟩
    · exact absurd ((Box.isFeasible_iff _).mpr ⟨p, within⟩) (by decide)
    · exact within
  subst outer
  exact ⟨agree, rfl, counted, fun apart => absurd (same.mpr apart) (by decide)⟩

end Cover

end RouteVolume
