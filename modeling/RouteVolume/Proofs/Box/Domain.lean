import Mathlib.Algebra.BigOperators.Group.List.Lemmas
import RouteVolume.Proofs.Box.Points
import RouteVolume.Settings

namespace RouteVolume

theorem Settings.mem_domain {s : Settings} {p : Point} :
    p ∈ s.domain ↔ p.length = s.dimensions ∧ ∀ x ∈ p, s.least ≤ x ∧ x ≤ s.greatest := by
  rw [Box.mem_def, domain, Box.full, dimensions]
  dsimp only
  generalize s.attrs = attrs
  induction attrs generalizing p with
  | nil => cases p <;> simp
  | cons attr rest ih =>
    cases p with
    | nil => simp
    | cons x q =>
      rw [List.map_cons, List.forall₂_cons, ih, Interval.mem_def, List.length_cons,
        List.length_cons, List.forall_mem_cons, Nat.add_right_cancel_iff, and_left_comm]

theorem Settings.least_le_greatest {s : Settings} (valid : s.problems = []) :
    s.least ≤ s.greatest := by
  by_contra empty
  unfold problems at valid
  rw [if_pos (c := s.greatest < s.least) (by omega)] at valid
  simp at valid

theorem Settings.domain_feasible {s : Settings} (valid : s.problems = []) :
    s.domain.isFeasible = true := by
  have ordered := least_le_greatest valid
  rw [Box.isFeasible_iff]
  refine ⟨List.replicate s.dimensions s.least, mem_domain.mpr ⟨List.length_replicate, ?_⟩⟩
  intro x mem
  rw [List.eq_of_mem_replicate mem]
  exact ⟨Int.le_refl _, ordered⟩

theorem Settings.volume_domain {s : Settings} (valid : s.problems = []) :
    (s.domain.volume : Int) = s.space := by
  have ordered := least_le_greatest valid
  have size : ((⟨s.least, s.greatest⟩ : Interval).size : Int) = s.domainSize := by
    unfold Interval.size domainSize
    dsimp only
    omega
  rw [Box.volume, ← List.prod_eq_foldl_nat, domain, Box.full, List.map_map, space, dimensions,
    Function.comp_def, List.map_const', List.prod_replicate, Nat.cast_pow, size]
  rfl

end RouteVolume
