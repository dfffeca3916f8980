import RouteVolume.Proofs.Network.Renumbering

namespace RouteVolume

namespace Network

variable {g : Network}

theorem degrees_of_edgesFrom {k : Int} {edges : List Edge} (listed : g.edgesFrom k = .ok edges) :
    ∃ entering, g.degrees k = .ok (edges.length, entering) := by
  obtain ⟨s, there, read⟩ := edgesFrom_eq_ok_iff.mp listed
  refine ⟨s.entering.length, ?_⟩
  rw [degrees, there, length_of_mapM_ok read]
  rfl

theorem isSome_region?_iff {b : Branch} :
    (g.region? b).isSome = true ↔ g.node b.node = .ok .start := by
  rw [Option.isSome_iff_exists]
  constructor
  · intro ⟨box, emitted⟩
    exact (region?_eq_some_iff_node.mp emitted).1
  · intro start
    exact ⟨b.box, region?_eq_some_iff_node.mpr ⟨start, rfl⟩⟩

theorem prunes_iff {b : Branch} (fine : g.failure? b = none) :
    g.prunes b = true ↔ ∃ node narrowed, g.node b.node = .ok node ∧ node.kind = .condition ∧
      node.narrow b.box b.passage = .ok narrowed ∧ narrowed.isFeasible = false := by
  unfold prunes
  cases arrives : g.arrive b with
  | error fault =>
    rw [failure?, arrives] at fine
    cases fine
  | ok arrival =>
    obtain ⟨s, there, arrived⟩ := arrived_of_arrive arrives
    have located : g.node b.node = .ok s.node := node_eq_ok_iff.mpr ⟨s, there, rfl⟩
    rw [located]
    cases arrived with
    | region start =>
      refine iff_of_false Bool.false_ne_true ?_
      rintro ⟨node, _, same, kind, _⟩
      rw [← Except.ok.inj same, start] at kind
      cases kind
    | pruned narrowed infeasible =>
      exact iff_of_true rfl ⟨s.node, _, rfl, (Node.narrow_inv narrowed).1, narrowed, infeasible⟩
    | fork _ _ _ narrowed feasible _ =>
      refine iff_of_false Bool.false_ne_true ?_
      rintro ⟨node, other, same, _, part, infeasible⟩
      rw [← Except.ok.inj same, narrowed] at part
      rw [← Except.ok.inj part, feasible] at infeasible
      cases infeasible

theorem tally_of_result {s : Settings} {regions : List Box} (ended : (g.walk s).result = .ok regions) :
    ∃ edges, g.edgesFrom accept = .ok edges ∧ (∀ v ∈ g.visits s, g.failure? v.branch = none) ∧
      regions = ((g.visits s).map (·.branch)).filterMap g.region? ∧
      (g.walk s).tally = ⟨edges.length, ((g.visits s).map (·.branch)).length, regions.length,
        ((g.visits s).map (·.branch)).countP g.prunes⟩ := by
  obtain ⟨edges, launched⟩ := edgesFrom_accept_of_walk ended
  rcases result_walk_cases launched s with ⟨⟨fault, failed⟩, _⟩ | ⟨returned, passed⟩
  · rw [ended] at failed
    cases failed
  · have fine := List.forall_mem_map.mp passed
    obtain rfl := Except.ok.inj (ended.symm.trans returned)
    refine ⟨edges, launched, fine, rfl, ?_⟩
    rw [tally_walk launched fine, tallied]
    simp only [Nat.zero_add]

end Network

open Network

/-- After a walk that comes to an end, a walker has counted the edges that leave Accept, the trails
explored, those of them that have come to Start, which are as many as the regions, and those that have
come to a condition that leaves them no point. Another walk gives the same regions and counts. Here an
edge leaves the node that is its source, and where its source was counted from the back, the node
that was meant when it was added. -/
theorem Walker.walk_counts {w after : Walker} {regions : List Box} (assembled : w.network.Assembled)
    (walked : w.walk = (after, .ok regions)) :
    (∃ entering, w.network.degrees accept = .ok (after.tally.launched, entering)) ∧
    {trail | ∃ edge box, w.network.Explored w.settings trail edge box}.encard =
      after.tally.steps ∧
    {trail | ∃ edge box, w.network.Explored w.settings trail edge box ∧
      w.network.node edge.target = .ok .start}.encard = after.tally.emitted ∧
    regions.length = after.tally.emitted ∧
    {trail | ∃ edge box, w.network.Explored w.settings trail edge box ∧ ∃ node narrowed,
      w.network.node edge.target = .ok node ∧ node.kind = .condition ∧
      node.narrow box edge.passage = .ok narrowed ∧ narrowed.isFeasible = false}.encard =
      after.tally.pruned ∧
    (∀ (k e : Nat) (edge : Edge), 0 ≤ edge.source → (w.network.Leaves k e edge ↔
      w.network.edges[e]? = some edge ∧ edge.source = k)) ∧
    after.walk = (after, .ok regions) := by
  obtain ⟨g, s, stale⟩ := w
  obtain ⟨rfl, ended⟩ := Prod.mk.inj walked
  obtain ⟨edges, launched, fine, found, tally⟩ := tally_of_result ended
  have listed := assembled.listed
  have all : {trail | ∃ edge box, g.Explored s trail edge box} =
      {trail | ∃ edge box, g.Explored s trail edge box ∧ True} := by simp only [and_true]
  refine ⟨?_, ?_, ?_, ?_, ?_, fun k e edge positive => listed.leaves_iff positive,
    Prod.ext rfl ended⟩
  all_goals
    dsimp only
    rw [tally]
  · exact degrees_of_edgesFrom launched
  · rw [all, encard_explored (p := fun _ => true) listed fine fun _ _ _ _ _ => iff_of_true rfl ⟨⟩,
      List.countP_true]
  · rw [found, List.length_filterMap_eq_countP]
    refine encard_explored (q := fun edge _ => g.node edge.target = .ok .start) listed fine ?_
    intro v _ edge node_eq _
    rw [isSome_region?_iff, node_eq]
  · refine encard_explored (q := fun edge box => ∃ node narrowed, g.node edge.target = .ok node ∧
      node.kind = .condition ∧ node.narrow box edge.passage = .ok narrowed ∧
      narrowed.isFeasible = false) listed fine ?_
    intro v visited edge node_eq passage_eq
    rw [prunes_iff (fine v visited), node_eq, passage_eq]

theorem doubled_counts :
    {trail | ∃ edge box, doubled.Explored line trail edge box}.encard = 8 ∧
    {trail | ∃ edge box, doubled.Explored line trail edge box ∧
      doubled.node edge.target = .ok .start}.encard = 4 ∧
    {trail | ∃ edge box, doubled.Explored line trail edge box ∧ ∃ node narrowed,
      doubled.node edge.target = .ok node ∧ node.kind = .condition ∧
      node.narrow box edge.passage = .ok narrowed ∧ narrowed.isFeasible = false}.encard = 1 := by
  -- One of the two branches at the first condition leaves no point behind the second.
  obtain ⟨running, tally⟩ : (doubled.walk line).fault? = none ∧
      (doubled.walk line).tally = ⟨2, 8, 4, 1⟩ := by decide +kernel
  have walked : Walker.walk { network := doubled, settings := line } =
      ({ network := doubled, settings := line, tally := ⟨2, 8, 4, 1⟩ },
        .ok (doubled.walk line).regions.reverse) := by
    rw [Walker.walk, tally, Walk.result, running]
  obtain ⟨_, steps, emitted, _, pruned, _⟩ := Walker.walk_counts assembled_doubled walked
  exact ⟨steps, emitted, pruned⟩

end RouteVolume
