import RouteVolume.Proofs.Box.Domain
import RouteVolume.Proofs.Network.Exploration

namespace RouteVolume.Network

inductive Route (g : Network) (s : Settings) : List Nat → Edge → Box → Prop
  | launch {e : Nat} {edge : Edge} (leaves : g.Leaves accept e edge) :
      Route g s [e] edge s.domain
  | onward {trail : List Nat} {last edge : Edge} {box narrowed : Box} {node : Node} {e : Nat}
      (before : Route g s trail last box) (there : g.node last.target = .ok node)
      (kind : node.kind = .condition) (left : last.passage ≠ .entry)
      (part : node.narrow box last.passage = .ok narrowed) (leaves : g.Leaves last.target e edge) :
      Route g s (e :: trail) edge narrowed

/-- A route ends at a start node, with a box. -/
def Completes (g : Network) (s : Settings) (trail : List Nat) (box : Box) : Prop :=
  ∃ edge, g.Route s trail edge box ∧ g.node edge.target = .ok .start

theorem node_natCast_iff {g : Network} {k : Nat} {n : Node} :
    g.node k = .ok n ↔ g.nodes[k]? = some n := by
  rw [node_eq_ok_iff]
  constructor
  · intro ⟨s, there, same⟩
    obtain ⟨j, points, stored⟩ := slot_eq_ok_iff.mp there
    have place := place_eq_ok_iff.mp points
    obtain rfl : j = k := by omega
    rw [node_of_slot stored, same]
  · intro there
    obtain ⟨s, stored, same⟩ := exists_slot_of_node there
    exact ⟨s, slot_natCast stored, same⟩

structure Follows (g : Network) (s : Settings) (v : Visit) (edge : Edge) : Prop where
  route : g.Route s v.trail edge v.branch.box
  node_eq : v.branch.node = edge.target
  passage_eq : v.branch.passage = edge.passage
  feasible : v.branch.box.isFeasible = true

theorem Explored.route {g : Network} {s : Settings} {trail : List Nat} {edge : Edge} {box : Box}
    (explored : g.Explored s trail edge box) : g.Route s trail edge box := by
  induction explored with
  | launch leaves => exact .launch leaves
  | onward _ there kind part _ leaves ih =>
    exact .onward ih there kind (Node.narrow_inv part).2 part leaves

theorem Explored.feasible {g : Network} {s : Settings} {trail : List Nat} {edge : Edge} {box : Box}
    (explored : g.Explored s trail edge box) (valid : s.problems = []) : box.isFeasible = true := by
  cases explored with
  | launch _ => exact Settings.domain_feasible valid
  | onward _ _ _ _ feasible _ => exact feasible

theorem Route.explored {g : Network} {s : Settings} {trail : List Nat} {edge : Edge} {box : Box}
    (route : g.Route s trail edge box) (feasible : box.isFeasible = true) :
    g.Explored s trail edge box := by
  induction route with
  | launch leaves => exact .launch leaves
  | onward _ there kind _ part leaves ih =>
    obtain ⟨p, inside⟩ := (Box.isFeasible_iff _).mp feasible
    have before := ih ((Box.isFeasible_iff _).mpr ⟨p, (((Node.narrow_spec part).2 p).mp inside).1⟩)
    exact .onward before there kind part feasible leaves

theorem follows_of_mem_visits {g : Network} {s : Settings} (valid : s.problems = []) {v : Visit}
    (mem : v ∈ g.visits s) : ∃ edge, g.Follows s v edge := by
  obtain ⟨edge, explored, node_eq, passage_eq⟩ := explored_of_mem_visits mem
  exact ⟨edge, explored.route, node_eq, passage_eq, explored.feasible valid⟩

theorem exists_visit_of_route {g : Network} {s : Settings}
    (fine : ∀ v ∈ g.visits s, g.failure? v.branch = none) {trail : List Nat} {edge : Edge}
    {box : Box} (route : g.Route s trail edge box) (feasible : box.isFeasible = true) :
    ∃ v ∈ g.visits s, v.trail = trail ∧ v.branch.node = edge.target ∧
      v.branch.passage = edge.passage ∧ v.branch.box = box :=
  exists_visit_of_explored fine (route.explored feasible)

theorem region?_eq_some_iff_node {g : Network} {b : Branch} {box : Box} :
    g.region? b = some box ↔ g.node b.node = .ok .start ∧ b.box = box := by
  rw [node_eq_ok_iff]
  cases there : g.slot b.node with
  | error fault => simp [region?, arrive, node, there, Except.map, bind, Except.bind]
  | ok slot =>
    rw [region?_eq_some_iff there]
    simp

theorem edgesFrom_accept_of_walk {g : Network} {s : Settings} {regions : List Box}
    (walked : (g.walk s).result = .ok regions) : ∃ edges, g.edgesFrom accept = .ok edges := by
  unfold walk at walked
  split at walked
  · cases walked
  · rename_i slot there
    dsimp only at walked
    split at walked
    · cases walked
    · rename_i edges read
      exact ⟨edges, edgesFrom_eq_ok_iff.mpr ⟨slot, there, read⟩⟩

/-- What a walk finds: the regions, each with the edges that led to it. -/
def found (g : Network) (s : Settings) : List (List Nat × Box) :=
  (g.visits s).filterMap fun v => (g.region? v.branch).map (v.trail, ·)

theorem map_snd_found (g : Network) (s : Settings) :
    (g.found s).map (·.2) = (g.visits s).filterMap fun v => g.region? v.branch := by
  unfold found
  rw [List.map_filterMap]
  simp

theorem nodup_found {g : Network} (listed : g.Listed) (s : Settings) :
    ((g.found s).map (·.1)).Nodup := by
  have distinct := nodup_trails_visits (fun _ _ there => listed.nodup_leaving there) s
  refine distinct.sublist ?_
  unfold found
  generalize g.visits s = visits
  induction visits with
  | nil => exact .refl _
  | cons v rest ih =>
    rw [List.filterMap_cons, List.map_cons]
    cases g.region? v.branch with
    | none => exact ih.cons _
    | some box => exact ih.cons_cons _

theorem mem_found_iff {g : Network} {s : Settings} (valid : s.problems = [])
    (fine : ∀ v ∈ g.visits s, g.failure? v.branch = none) {trail : List Nat} {box : Box} :
    (trail, box) ∈ g.found s ↔ g.Completes s trail box ∧ box.isFeasible = true := by
  unfold found
  rw [List.mem_filterMap]
  constructor
  · intro ⟨v, visited, emitted⟩
    obtain ⟨_, emits, same⟩ := Option.map_eq_some_iff.mp emitted
    obtain ⟨rfl, rfl⟩ := Prod.mk.inj same
    obtain ⟨start, rfl⟩ := region?_eq_some_iff_node.mp emits
    obtain ⟨edge, follows⟩ := follows_of_mem_visits valid visited
    rw [follows.node_eq] at start
    exact ⟨⟨edge, follows.route, start⟩, follows.feasible⟩
  · intro ⟨⟨edge, route, start⟩, feasible⟩
    obtain ⟨v, visited, rfl, node_eq, _, rfl⟩ := exists_visit_of_route fine route feasible
    rw [← node_eq] at start
    exact ⟨v, visited, by rw [region?_eq_some_iff_node.mpr ⟨start, rfl⟩, Option.map_some]⟩

/-- A walk that comes to an end has found one region for each route to Start with a point in its
box, and no other. Here an edge leaves the node that is its source, and where its source was
counted from the back, the node that was meant when it was added. -/
theorem walk_finds_routes {g : Network} {s : Settings} {regions : List Box}
    (assembled : g.Assembled) (valid : s.problems = [])
    (walked : (g.walk s).result = .ok regions) :
    (∃ found : List (List Nat × Box), (found.map (·.1)).Nodup ∧
      (∀ trail box, (trail, box) ∈ found ↔ g.Completes s trail box ∧ box.isFeasible = true) ∧
      regions.Perm (found.map (·.2))) ∧
    ∀ (k e : Nat) (edge : Edge), 0 ≤ edge.source →
      (g.Leaves k e edge ↔ g.edges[e]? = some edge ∧ edge.source = k) := by
  obtain ⟨edges, launched⟩ := edgesFrom_accept_of_walk walked
  have result := result_walk launched s
  rw [walked] at result
  refine ⟨?_, fun k e edge positive => assembled.listed.leaves_iff positive⟩
  split at result
  · cases result
  · rename_i fine
    refine ⟨g.found s, nodup_found assembled.listed s, fun trail box => ?_, ?_⟩
    · exact mem_found_iff valid (List.findSome?_eq_none_iff.mp fine)
    · rw [map_snd_found, Except.ok.inj result]

def doubled : Network where
  slots := #[
    { node := .reject },
    { node := .accept, leaving := [0, 1] },
    { node := .start, entering := [3, 4, 5] },
    { node := .condition "x" (.below 3) "in" 0, leaving := [2, 5], entering := [0, 1] },
    { node := .condition "x" (.above 3) "in" 1, leaving := [3, 4], entering := [2] }]
  edges := #[⟨1, 3, .pass⟩, ⟨1, 3, .fail⟩, ⟨3, 4, .pass⟩, ⟨4, 2, .entry⟩, ⟨4, 2, .entry⟩,
    ⟨-2, 2, .entry⟩]
  frozen := false

def line : Settings := { attrs := ["x"], least := 1, greatest := 4 }

theorem assembled_doubled : doubled.Assembled := by
  have nodes := Assembled.node (.condition "x" (.above 3) "in" 1)
    (.node (.condition "x" (.below 3) "in" 0) .empty rfl) rfl
  have conditions := Assembled.edge ⟨3, 4, .pass⟩
    (.edge ⟨1, 3, .fail⟩ (.edge ⟨1, 3, .pass⟩ nodes rfl) rfl) rfl
  exact .edge ⟨-2, 2, .entry⟩
    (.edge ⟨4, 2, .entry⟩ (.edge ⟨4, 2, .entry⟩ conditions rfl) rfl) rfl

theorem doubled_routes : ∃ found : List (List Nat × Box), found.length = 4 ∧
    (found.map (·.1)).Nodup ∧ ∀ trail box, (trail, box) ∈ found ↔
      doubled.Completes line trail box ∧ box.isFeasible = true := by
  obtain ⟨ended, four⟩ : (doubled.walk line).fault? = none ∧
      (doubled.walk line).regions.length = 4 := by decide +kernel
  have walked : (doubled.walk line).result = .ok (doubled.walk line).regions.reverse := by
    rw [Walk.result, ended]
  obtain ⟨⟨found, distinct, members, regions⟩, _⟩ :=
    walk_finds_routes assembled_doubled (by decide) walked
  have length := regions.length_eq
  rw [List.length_reverse, List.length_map, four] at length
  exact ⟨found, length.symm, distinct, members⟩

end RouteVolume.Network
