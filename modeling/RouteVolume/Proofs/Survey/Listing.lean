import RouteVolume.Proofs.Box.Order
import RouteVolume.Proofs.Survey.Regions

namespace RouteVolume

structure Partition (book : RuleBook) (settings : Settings) (boxes : List Box) : Prop where
  ascending : boxes.Pairwise Box.Precedes
  filled : ∀ b ∈ boxes, ∃ p, p ∈ b
  apart : Box.Apart boxes
  attrs : ∀ b ∈ boxes, b.attrs = settings.attrs
  entries : ∀ b ∈ boxes, b.entries = b.axes
  covers : ∀ p, (∃ b ∈ boxes, p ∈ b) ↔ p ∈ settings.domain ∧ book.Accepts settings p

theorem Settings.nodup_attrs {s : Settings} (valid : s.problems = []) : s.attrs.Nodup := by
  by_contra twice
  have found : Problem.repeatedAttribute s.attrs ∈ s.problems := by simp [problems, twice]
  rw [valid] at found
  cases found

theorem Cover.naive_sorted (boxes : List Box) : naive (Box.sorted boxes) = naive boxes := by
  have perm := (Box.sorted_perm boxes).map Box.volume
  exact perm.foldr_eq 0

namespace Survey

variable {book : RuleBook} {settings : Settings} {survey : Survey} (keyed : book.Keyed)
  (surveyed : ofRuleBook book settings = .ok survey)

include keyed surveyed

theorem apart_regions : Box.Apart survey.regions := by
  obtain ⟨made, _⟩ := parts_of_ofRuleBook surveyed
  rw [(walked_of_ofRuleBook keyed surveyed).2]
  exact (Wiring.renders_of_ofRuleBook keyed made).laid.pairwise_regions

theorem naive_eq_volume : Cover.naive survey.regions = survey.volume := by
  have size := encard_regions keyed surveyed
  rw [encard_of_apart (apart_regions keyed surveyed)] at size
  exact Nat.cast_inj.mp size

theorem partition_sorted : Partition book settings (Box.sorted survey.regions) := by
  obtain ⟨made, _⟩ := parts_of_ofRuleBook surveyed
  have distinct := Settings.nodup_attrs (Wiring.ready_of_ofRuleBook made).valid
  have apart := apart_regions keyed surveyed
  have each {b : Box} (mem : b ∈ Box.sorted survey.regions) :=
    region_attrs keyed surveyed ((Box.sorted_perm _).mem_iff.mp mem)
  refine ⟨?_, fun b mem => ?_, apart.sorted, fun b mem => (each mem).2.1, fun b mem => ?_, ?_⟩
  · exact apart.ascending fun b mem => (region_attrs keyed surveyed mem).1
  · exact (Box.isFeasible_iff b).mp (each mem).1
  · exact Box.entries_eq_axes ((each mem).2.1 ▸ distinct)
  · intro p
    rw [← mem_regions_iff_accepts keyed surveyed]
    exact exists_congr fun b => and_congr_left' (Box.sorted_perm _).mem_iff

end Survey

end RouteVolume
