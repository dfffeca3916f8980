import Mathlib.Data.Set.Card
import RouteVolume.Proofs.Network.Assembly
import RouteVolume.Proofs.Network.Trails

namespace RouteVolume

theorem Node.narrow_inv {n : Node} {b box : Box} {passage : Passage}
    (narrowed : n.narrow b passage = .ok box) : n.kind = .condition ∧ passage ≠ .entry := by
  cases n with
  | condition attr threshold workflow position =>
    obtain ⟨_, passed, outcome⟩ := Box.narrow_inv narrowed
    refine ⟨rfl, ?_⟩
    rintro rfl
    cases outcome
  | blank | accept | reject | start => cases narrowed

namespace Network

/-- A path of stored edges that leaves Accept, the latest edge first. It goes on only from conditions
behind which there are points left. The box is the one before the node that it has come to. -/
inductive Explored (g : Network) (s : Settings) : List Nat → Edge → Box → Prop
  | launch {e : Nat} {edge : Edge} (leaves : g.Leaves accept e edge) :
      Explored g s [e] edge s.domain
  | onward {trail : List Nat} {last edge : Edge} {box narrowed : Box} {node : Node} {e : Nat}
      (before : Explored g s trail last box) (there : g.node last.target = .ok node)
      (kind : node.kind = .condition) (part : node.narrow box last.passage = .ok narrowed)
      (feasible : narrowed.isFeasible = true) (leaves : g.Leaves last.target e edge) :
      Explored g s (e :: trail) edge narrowed

theorem node_eq_ok_iff {g : Network} {k : Int} {n : Node} :
    g.node k = .ok n ↔ ∃ s, g.slot k = .ok s ∧ s.node = n := by
  unfold node
  cases g.slot k with
  | error fault => simp [Except.map]
  | ok s => simp [Except.map]

theorem explored_of_mem_visits {g : Network} {s : Settings} {v : Visit} (mem : v ∈ g.visits s) :
    ∃ edge, g.Explored s v.trail edge v.branch.box ∧ v.branch.node = edge.target ∧
      v.branch.passage = edge.passage := by
  refine visits_induction (motive := fun v => ∃ edge, g.Explored s v.trail edge v.branch.box ∧
    v.branch.node = edge.target ∧ v.branch.passage = edge.passage) ?_ ?_ v mem
  · intro v begins
    unfold launches at begins
    split at begins
    · cases begins
    · rename_i slot there
      obtain ⟨e, within, edge, stored, rfl⟩ := mem_spread.mp begins
      exact ⟨edge, .launch ⟨stored, slot, there, within⟩, rfl, rfl⟩
  · intro v child ⟨last, before, node_eq, passage_eq⟩ onward
    obtain ⟨box, edges, slot, forked, there, along⟩ := mem_children.mp onward
    obtain ⟨e, within, edge, stored, rfl⟩ := mem_spread.mp along
    obtain ⟨_, again, arrived⟩ := arrived_of_arrive forked
    cases there.symm.trans again
    cases arrived with
    | fork kind _ _ narrowed feasible _ =>
      rw [passage_eq] at narrowed
      rw [node_eq] at there
      have node : g.node last.target = .ok slot.node := node_eq_ok_iff.mpr ⟨slot, there, rfl⟩
      exact ⟨edge, .onward before node kind narrowed feasible ⟨stored, slot, there, within⟩, rfl, rfl⟩

theorem exists_visit_of_explored {g : Network} {s : Settings}
    (fine : ∀ v ∈ g.visits s, g.failure? v.branch = none) {trail : List Nat} {edge : Edge}
    {box : Box} (explored : g.Explored s trail edge box) :
    ∃ v ∈ g.visits s, v.trail = trail ∧ v.branch.node = edge.target ∧
      v.branch.passage = edge.passage ∧ v.branch.box = box := by
  induction explored with
  | @launch e edge leaves =>
    obtain ⟨stored, slot, there, within⟩ := leaves
    refine ⟨⟨[e], ⟨edge.target, edge.passage, s.domain, [accept]⟩⟩, mem_visits_of_launch ?_,
      rfl, rfl, rfl, rfl⟩
    unfold launches
    rw [there]
    exact mem_spread.mpr ⟨e, within, edge, stored, rfl⟩
  | @onward trail last edge box narrowed node e before there kind part feasible leaves ih =>
    -- A point that is left keeps the arrival at the condition from being pruned.
    obtain ⟨p, inside⟩ := (Box.isFeasible_iff _).mp feasible
    obtain ⟨within, lets⟩ := ((Node.narrow_spec part).2 p).mp inside
    obtain ⟨v, visited, rfl, node_eq, passage_eq, rfl⟩ := ih
    obtain ⟨slot, located, rfl⟩ := node_eq_ok_iff.mp there
    rw [← node_eq] at located
    rw [← passage_eq] at lets part
    obtain ⟨forked, edges, arrives⟩ := fork_of_lets located within lets (fine v visited)
    obtain ⟨_, again, arrived⟩ := arrived_of_arrive arrives
    cases located.symm.trans again
    obtain ⟨stored, other, found, listed⟩ := leaves
    rw [← node_eq, located] at found
    cases found
    cases arrived with
    | fork _ _ _ same _ _ =>
      rw [part] at same
      cases same
      refine ⟨⟨e :: v.trail, ⟨edge.target, edge.passage, narrowed, v.branch.node :: v.branch.path⟩⟩,
        mem_visits_of_child visited (mem_children.mpr ⟨_, edges, slot, arrives, located, ?_⟩),
        rfl, rfl, rfl, rfl⟩
      exact mem_spread.mpr ⟨e, listed, edge, stored, rfl⟩

theorem encard_explored {g : Network} {s : Settings} (listed : g.Listed)
    (fine : ∀ v ∈ g.visits s, g.failure? v.branch = none) {p : Branch → Bool}
    {q : Edge → Box → Prop}
    (agree : ∀ v ∈ g.visits s, ∀ edge : Edge, v.branch.node = edge.target →
      v.branch.passage = edge.passage → (p v.branch = true ↔ q edge v.branch.box)) :
    {trail | ∃ edge box, g.Explored s trail edge box ∧ q edge box}.encard =
      ((g.visits s).map (·.branch)).countP p := by
  have trails : {trail | ∃ edge box, g.Explored s trail edge box ∧ q edge box} =
      ((((g.visits s).filter fun v => p v.branch).map (·.trail)).toFinset : Set (List Nat)) := by
    ext trail
    rw [List.coe_toFinset, Set.mem_ofPred_eq, Set.mem_ofPred_eq, List.mem_map]
    constructor
    · intro ⟨edge, box, explored, holds⟩
      obtain ⟨v, visited, rfl, node_eq, passage_eq, rfl⟩ := exists_visit_of_explored fine explored
      have chosen := (agree v visited edge node_eq passage_eq).mpr holds
      exact ⟨v, List.mem_filter.mpr ⟨visited, chosen⟩, rfl⟩
    · intro ⟨v, mem, same⟩
      obtain ⟨visited, chosen⟩ := List.mem_filter.mp mem
      obtain ⟨edge, explored, node_eq, passage_eq⟩ := explored_of_mem_visits visited
      exact ⟨edge, _, same ▸ explored, (agree v visited edge node_eq passage_eq).mp chosen⟩
  have distinct : (((g.visits s).filter fun v => p v.branch).map (·.trail)).Nodup :=
    (nodup_trails_visits (fun _ _ there => listed.nodup_leaving there) s).sublist
      (List.filter_sublist.map _)
  rw [trails, Set.encard_coe_eq_coe_finsetCard, List.toFinset_card_of_nodup distinct,
    List.length_map, List.countP_map, List.countP_eq_length_filter]
  rfl

end Network

end RouteVolume
