import Mathlib.Data.Set.Card
import RouteVolume.Box

namespace RouteVolume

/-- One value for each axis. -/
abbrev Point := List Int

namespace Interval

def points (i : Interval) : Finset Int := (Finset.range i.size).image fun k : Nat => i.lo + k

theorem mem_points {i : Interval} {x : Int} : x ∈ i.points ↔ x ∈ i := by
  unfold points
  rw [Finset.mem_image, mem_def]
  constructor
  · intro ⟨k, within, same⟩
    subst same
    rw [Finset.mem_range, size] at within
    omega
  · intro within
    refine ⟨(x - i.lo).toNat, ?_, by omega⟩
    rw [Finset.mem_range, size]
    omega

theorem card_points (i : Interval) : i.points.card = i.size := by
  have injective : Function.Injective fun k : Nat => i.lo + k := by
    intro j k same
    exact Int.natCast_inj.mp (Int.add_left_cancel same)
  unfold points
  rw [Finset.card_image_of_injective _ injective, Finset.card_range]

end Interval

namespace Box

def grid : List Interval → Finset Point
  | [] => {[]}
  | i :: rest =>
    (i.points ×ˢ grid rest).map ⟨fun (x, p) => x :: p, fun _ _ same => by
      obtain ⟨head, tail⟩ := List.cons.inj same
      exact Prod.ext head tail⟩

theorem mem_grid {ranges : List Interval} {p : Point} :
    p ∈ grid ranges ↔ List.Forall₂ (fun x i => x ∈ i) p ranges := by
  induction ranges generalizing p with
  | nil => rw [grid, Finset.mem_singleton, List.forall₂_nil_right_iff]
  | cons i rest ih =>
    unfold grid
    rw [Finset.mem_map, List.forall₂_cons_right_iff]
    constructor
    · intro ⟨⟨x, q⟩, within, same⟩
      subst same
      obtain ⟨head, tail⟩ := Finset.mem_product.mp within
      exact ⟨x, q, Interval.mem_points.mp head, ih.mp tail, rfl⟩
    · intro ⟨x, q, head, tail, same⟩
      subst same
      have within : (x, q) ∈ i.points ×ˢ grid rest :=
        Finset.mem_product.mpr ⟨Interval.mem_points.mpr head, ih.mpr tail⟩
      exact ⟨(x, q), within, rfl⟩

theorem card_grid (ranges : List Interval) :
    (grid ranges).card = (ranges.map Interval.size).prod := by
  induction ranges with
  | nil => rfl
  | cons i rest ih =>
    rw [grid, Finset.card_map, Finset.card_product, Interval.card_points, ih, List.map_cons,
      List.prod_cons]

instance : Membership Point Box where
  mem b p := List.Forall₂ (fun x i => x ∈ i) p b.ranges

theorem mem_def {b : Box} {p : Point} :
    p ∈ b ↔ List.Forall₂ (fun x i => x ∈ i) p b.ranges := Iff.rfl

def points (b : Box) : Finset Point := grid b.ranges

theorem mem_points {b : Box} {p : Point} : p ∈ b.points ↔ p ∈ b := mem_grid

theorem card_points (b : Box) : b.points.card = b.volume := by
  unfold points
  rw [card_grid, volume, List.prod_eq_foldl_nat]

theorem isFeasible_iff (b : Box) : b.isFeasible = true ↔ ∃ p, p ∈ b := by
  have positive : b.isFeasible = true ↔ b.points.card ≠ 0 := by
    rw [card_points, ne_eq, volume_eq_zero_iff, Bool.not_eq_false]
  rw [positive, Finset.card_ne_zero]
  exact exists_congr fun _ => mem_points

end Box

end RouteVolume
