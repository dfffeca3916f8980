import Mathlib
import RouteVolume.Proofs.Box.Domain
import RouteVolume.Proofs.Cover.Overlap
import RouteVolume.Proofs.Wiring.Meaning
import RouteVolume.Survey

namespace RouteVolume

theorem Network.Indexed.nodup_leaving {g : Network} (indexed : g.Indexed) {k : Int} {s : Slot}
    (there : g.slot k = .ok s) : s.leaving.Nodup := by
  obtain ⟨j, _, stored⟩ := Network.slot_eq_ok_iff.mp there
  rw [indexed.leaving j s stored]
  exact g.nodup_numbersWhere _

namespace Laid

variable {g : Network} {js : List Junction} {first : Nat} {s : Settings}

theorem region?_eq_some_iff (laid : Laid g js first) {v : Visit} {e : Nat} {edge : Edge}
    {rest : List Nat} (reached : g.Reached s v e edge rest) {box : Box} :
    g.region? v.branch = some box ↔
      edge = ⟨first, Network.start, .entry⟩ ∧ v.branch.box = box := by
  have mem := Array.mem_of_getElem? reached.stored
  obtain ⟨_, k, _, target, _, known⟩ := Network.ends_of_stored laid.indexed reached.stored
  obtain ⟨slot, stored⟩ : ∃ slot, g.slots[k]? = some slot := ⟨_, Array.getElem?_eq_getElem known⟩
  have there : g.slot v.branch.node = .ok slot := by
    rw [reached.node_eq, target]
    exact Network.slot_natCast stored
  have ofStart : slot.node = .start ↔ edge = ⟨first, Network.start, .entry⟩ := by
    constructor
    · intro start
      rcases laid.slot_cases stored with ⟨_, node⟩ | ⟨_, node⟩ | ⟨rfl, _⟩ | ⟨j, _, _, node⟩
      · rw [node] at start
        cases start
      · rw [node] at start
        cases start
      · exact laid.entry_of_target mem target
      · rw [node] at start
        cases start
    · intro entry
      subst entry
      obtain ⟨other, located, node⟩ := laid.slot_start
      rw [Int.natCast_inj.mp target, stored, Option.some.injEq] at located
      rw [located, node]
  rw [← ofStart, Network.region?_eq_some_iff there]

theorem exists_of_mem_regions (laid : Laid g js first) {box : Box}
    (mem : box ∈ (g.visits s).filterMap fun v => g.region? v.branch) :
    ∃ v ∈ g.visits s, v.branch.box = box ∧
      ∃ e rest, g.Reached s v e ⟨first, Network.start, .entry⟩ rest := by
  obtain ⟨v, visited, emitted⟩ := List.mem_filterMap.mp mem
  obtain ⟨e, edge, rest, reached⟩ := Network.reached_of_mem_visits laid.indexed visited
  obtain ⟨rfl, same⟩ := (laid.region?_eq_some_iff reached).mp emitted
  exact ⟨v, visited, same, e, rest, reached⟩

theorem mem_regions_iff (laid : Laid g js first)
    (fine : ∀ v ∈ g.visits s, g.failure? v.branch = none) {p : Point} :
    (∃ box ∈ (g.visits s).filterMap fun v => g.region? v.branch, p ∈ box) ↔
      p ∈ s.domain ∧ ∃ rest, g.Trail (valueOf s.attrs p) first rest := by
  constructor
  · intro ⟨box, mem, within⟩
    obtain ⟨v, _, rfl, e, rest, reached⟩ := laid.exists_of_mem_regions mem
    obtain ⟨inside, trail⟩ := (reached.mem_box p).mp within
    exact ⟨inside, rest, trail⟩
  · intro ⟨inside, rest, trail⟩
    obtain ⟨e, stored⟩ := Array.mem_iff_getElem?.mp (laid.mem_edges.mpr (.inr rfl))
    obtain ⟨v, visited, same⟩ :=
      Network.exists_visit_of_trail laid.indexed fine inside trail stored rfl
    obtain ⟨d, edge, rest', reached⟩ := Network.reached_of_mem_visits laid.indexed visited
    rw [reached.trail_eq, List.cons.injEq] at same
    obtain ⟨rfl, rfl⟩ := same
    have again := reached.stored
    rw [stored] at again
    cases again
    refine ⟨v.branch.box, List.mem_filterMap.mpr ⟨v, visited, ?_⟩, ?_⟩
    · exact (laid.region?_eq_some_iff reached).mpr ⟨rfl, rfl⟩
    · exact (reached.mem_box p).mpr ⟨inside, trail⟩

theorem pairwise_regions (laid : Laid g js first) :
    ((g.visits s).filterMap fun v => g.region? v.branch).Pairwise
      fun a b => ∀ p, ¬ (p ∈ a ∧ p ∈ b) := by
  -- No point lies in two regions, as a point follows one trail only.
  have distinct := Network.nodup_trails_visits
    (fun k slot there => laid.indexed.nodup_leaving (k := k) there) s
  rw [List.Nodup, List.pairwise_map] at distinct
  rw [List.pairwise_filterMap]
  apply distinct.imp_of_mem
  intro v w inV inW differ a ofV b ofW p both
  apply differ
  obtain ⟨e, edge, rest, left⟩ := Network.reached_of_mem_visits laid.indexed inV
  obtain ⟨d, other, more, right⟩ := Network.reached_of_mem_visits laid.indexed inW
  obtain ⟨rfl, rfl⟩ := (laid.region?_eq_some_iff left).mp ofV
  obtain ⟨rfl, rfl⟩ := (laid.region?_eq_some_iff right).mp ofW
  have one := ((left.mem_box p).mp both.1).2
  have two := ((right.mem_box p).mp both.2).2
  rw [left.trail_eq, right.trail_eq, laid.noTwins e d _ _ left.stored right.stored rfl rfl,
    one.unique laid.target_ne_accept laid.noTwins two]

end Laid

namespace Survey

theorem parts_of_ofRuleBook {book : RuleBook} {settings : Settings} {survey : Survey}
    (surveyed : ofRuleBook book settings = .ok survey) :
    Wiring.ofRuleBook book settings = .ok survey.wiring ∧
      (survey.wiring.network.walk settings).result = .ok survey.regions ∧
      Cover.union survey.regions = .ok survey.volume ∧
      survey.walk = survey.wiring.network.walk settings := by
  unfold ofRuleBook at surveyed
  simp only [bind, Except.bind] at surveyed
  split at surveyed
  · cases surveyed
  · rename_i wiring made
    unfold ofWalk at surveyed
    simp only [bind, Except.bind] at surveyed
    split at surveyed
    · cases surveyed
    · rename_i regions walked
      split at surveyed
      · cases surveyed
      · rename_i volume measured
        cases surveyed
        exact ⟨made, walked, measured, rfl⟩

section Surveyed

variable {book : RuleBook} {settings : Settings} {survey : Survey}

theorem walked_of_ofRuleBook (keyed : book.Keyed)
    (surveyed : ofRuleBook book settings = .ok survey) :
    (∀ v ∈ survey.wiring.network.visits settings,
      survey.wiring.network.failure? v.branch = none) ∧
    survey.regions = (survey.wiring.network.visits settings).filterMap
      fun v => survey.wiring.network.region? v.branch := by
  obtain ⟨made, walked, _⟩ := parts_of_ofRuleBook surveyed
  have laid := (Wiring.renders_of_ofRuleBook keyed made).laid
  obtain ⟨edges, listed⟩ := laid.edgesFrom_accept
  rw [Network.result_walk listed] at walked
  split at walked
  · cases walked
  · rename_i fine
    exact ⟨List.findSome?_eq_none_iff.mp fine, (Except.ok.inj walked).symm⟩

theorem mem_regions_iff_accepts (keyed : book.Keyed)
    (surveyed : ofRuleBook book settings = .ok survey) {p : Point} :
    (∃ box ∈ survey.regions, p ∈ box) ↔ p ∈ settings.domain ∧ book.Accepts settings p := by
  obtain ⟨made, _⟩ := parts_of_ofRuleBook surveyed
  have renders := Wiring.renders_of_ofRuleBook keyed made
  obtain ⟨fine, regions⟩ := walked_of_ofRuleBook keyed surveyed
  rw [regions, renders.laid.mem_regions_iff fine, renders.accepts_iff keyed]

theorem region_attrs (keyed : book.Keyed) (surveyed : ofRuleBook book settings = .ok survey)
    {box : Box} (mem : box ∈ survey.regions) :
    box.isFeasible ∧ box.attrs = settings.attrs ∧ ∀ p ∈ box, p ∈ settings.domain := by
  obtain ⟨made, _⟩ := parts_of_ofRuleBook surveyed
  have laid := (Wiring.renders_of_ofRuleBook keyed made).laid
  have valid := (Wiring.ready_of_ofRuleBook made).valid
  rw [(walked_of_ofRuleBook keyed surveyed).2] at mem
  obtain ⟨v, _, rfl, e, rest, reached⟩ := laid.exists_of_mem_regions mem
  exact ⟨reached.feasible (Settings.domain_feasible valid), reached.attrs_eq,
    fun p within => ((reached.mem_box p).mp within).1⟩

theorem encard_regions (keyed : book.Keyed) (surveyed : ofRuleBook book settings = .ok survey) :
    {p : Point | ∃ box ∈ survey.regions, p ∈ box}.encard = survey.volume := by
  obtain ⟨_, _, measured, _⟩ := parts_of_ofRuleBook surveyed
  have agree : Cover.Agree survey.regions := by
    intro a inA b inB _ _
    rw [(region_attrs keyed surveyed inA).2.1, (region_attrs keyed surveyed inB).2.1]
  obtain ⟨n, counted, size⟩ := Cover.union_of_agree agree
  rw [measured] at counted
  cases counted
  exact size

end Surveyed

theorem encard_of_apart {boxes : List Box}
    (apart : boxes.Pairwise fun a b => ∀ p, ¬ (p ∈ a ∧ p ∈ b)) :
    {p : Point | ∃ box ∈ boxes, p ∈ box}.encard = Cover.naive boxes := by
  rw [← Cover.coe_held, Set.encard_coe_eq_coe_finsetCard, Cover.card_held_eq_naive_iff.mpr apart]

/-- The regions of a survey lie within the domain and have no point in common; so their volumes
add up, to what the domain holds at most. -/
theorem regions_partition {made : List (Except Fault Workflow)} {book : RuleBook}
    {settings : Settings} {survey : Survey} (defined : RuleBook.ofWorkflows made = .ok book)
    (surveyed : ofRuleBook book settings = .ok survey) :
    (∀ box ∈ survey.regions, box.isFeasible ∧ box.attrs = settings.attrs ∧
      ∀ p ∈ box, p ∈ settings.domain) ∧
    (survey.regions.Pairwise fun a b => ∀ p, ¬ (p ∈ a ∧ p ∈ b)) ∧
    survey.naive = survey.volume ∧ survey.overlap = 0 ∧
    (survey.volume : Int) ≤ settings.space := by
  have keyed := RuleBook.keyed_ofWorkflows defined
  obtain ⟨wired, _⟩ := parts_of_ofRuleBook surveyed
  have valid := (Wiring.ready_of_ofRuleBook wired).valid
  have apart : survey.regions.Pairwise fun a b => ∀ p, ¬ (p ∈ a ∧ p ∈ b) := by
    rw [(walked_of_ofRuleBook keyed surveyed).2]
    exact (Wiring.renders_of_ofRuleBook keyed wired).laid.pairwise_regions
  have size := encard_regions keyed surveyed
  have sum : survey.naive = survey.volume := by
    rw [encard_of_apart apart, Nat.cast_inj] at size
    exact size
  refine ⟨fun box mem => region_attrs keyed surveyed mem, apart, sum, ?_, ?_⟩
  · unfold overlap
    rw [sum, Int.sub_self]
  · have part : {p : Point | ∃ box ∈ survey.regions, p ∈ box} ⊆ (settings.domain.points : Set Point) := by
      intro p mem
      have within := (mem_regions_iff_accepts keyed surveyed).mp mem
      exact Box.mem_points.mpr within.1
    have fewer := Set.encard_le_encard part
    rw [size, Set.encard_coe_eq_coe_finsetCard, Box.card_points, Nat.cast_le] at fewer
    rw [← Settings.volume_domain valid]
    exact Int.ofNat_le.mpr fewer

/-- Three workflows, one of which the other two share. -/
def sharing : RuleBook where
  entries := [
    ("in", ⟨"in", ⟨"x", .below 3, .workflow "low"⟩, [⟨"m", .above 2, .accept⟩], .workflow "deep",
      none⟩),
    ("low", ⟨"low", ⟨"m", .below 2, .accept⟩, [], .workflow "deep", none⟩),
    ("deep", ⟨"deep", ⟨"x", .above 1, .accept⟩, [], .reject, none⟩)]
  distinct := by decide

def square : Settings := { attrs := ["x", "m"], least := 1, greatest := 4 }

theorem sharing_partition : ∃ survey, ofRuleBook sharing square = .ok survey ∧
    survey.regions.length = 4 ∧ survey.naive = 13 ∧ survey.overlap = 0 := by
  have defined : RuleBook.ofWorkflows (sharing.workflows.map .ok) = .ok sharing := rfl
  have computed : (ofRuleBook sharing square).map (fun survey =>
      (survey.regions.length, survey.volume)) = .ok (4, 13) := by cbv
  cases surveyed : ofRuleBook sharing square with
  | error fault =>
    rw [surveyed] at computed
    cases computed
  | ok survey =>
    rw [surveyed] at computed
    obtain ⟨length, volume⟩ := Prod.mk.inj (Except.ok.inj computed)
    obtain ⟨_, _, sum, overlap, _⟩ := regions_partition defined surveyed
    exact ⟨survey, rfl, length, sum.trans volume, overlap⟩

end Survey

/-- A rule book is found to accept as many points as there are in the domain whose evaluation comes
to Accept. -/
theorem RuleBook.accepted_counts_points {made : List (Except Fault Workflow)} {book : RuleBook}
    {settings : Settings} {n : Nat} (defined : RuleBook.ofWorkflows made = .ok book)
    (counted : book.accepted settings = .ok n) :
    {p : Point | (p.length = settings.dimensions ∧
      ∀ x ∈ p, settings.least ≤ x ∧ x ≤ settings.greatest) ∧ book.Accepts settings p}.encard = n ∧
    ∃ survey, Survey.ofRuleBook book settings = .ok survey ∧ survey.volume = n := by
  have keyed := RuleBook.keyed_ofWorkflows defined
  unfold accepted at counted
  cases surveyed : Survey.ofRuleBook book settings with
  | error fault =>
    rw [surveyed] at counted
    cases counted
  | ok survey =>
    rw [surveyed] at counted
    cases counted
    refine ⟨?_, survey, rfl, rfl⟩
    rw [← Survey.encard_regions keyed surveyed]
    congr 1
    ext p
    rw [Set.mem_ofPred_eq, Set.mem_ofPred_eq, Survey.mem_regions_iff_accepts keyed surveyed,
      Settings.mem_domain]

theorem RuleBook.sharing_counts : {p : Point | (p.length = 2 ∧ ∀ x ∈ p, 1 ≤ x ∧ x ≤ 4) ∧
    Survey.sharing.Accepts Survey.square p}.encard = 13 := by
  have defined : RuleBook.ofWorkflows (Survey.sharing.workflows.map .ok) = .ok Survey.sharing := rfl
  have counted : Survey.sharing.accepted Survey.square = .ok 13 := by cbv
  exact (accepted_counts_points defined counted).1

end RouteVolume
