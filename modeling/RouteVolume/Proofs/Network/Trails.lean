import Mathlib.Logic.Relation
import RouteVolume.Proofs.Box.Narrow
import RouteVolume.Proofs.Network.Replay

namespace RouteVolume.Network

inductive Trail (g : Network) (value : String → Int) : Int → List Nat → Prop
  | arrived : Trail g value accept []
  | along {e : Nat} {edge : Edge} {s : Slot} {rest : List Nat} (stored : g.edges[e]? = some edge)
      (there : g.slot edge.target = .ok s) (lets : s.node.Lets value edge.passage)
      (further : Trail g value edge.source rest) : Trail g value edge.target (e :: rest)

def Leads (g : Network) (k j : Int) : Prop := ∃ edge ∈ g.edges, edge.target = k ∧ edge.source = j

structure Reached (g : Network) (s : Settings) (v : Visit) (e : Nat) (edge : Edge)
    (rest : List Nat) : Prop where
  trail_eq : v.trail = e :: rest
  stored : g.edges[e]? = some edge
  node_eq : v.branch.node = edge.target
  passage_eq : v.branch.passage = edge.passage
  attrs_eq : v.branch.box.attrs = s.attrs
  mem_box : ∀ p, p ∈ v.branch.box ↔ p ∈ s.domain ∧ g.Trail (valueOf s.attrs p) edge.source rest
  feasible : s.domain.isFeasible = true → v.branch.box.isFeasible = true
  path : ∀ k ∈ v.branch.path, Relation.TransGen g.Leads v.branch.node k

theorem edge_of_mem_leaving {g : Network} {k : Nat} {s : Slot} {e : Nat} {edge : Edge}
    (indexed : g.Indexed) (there : g.slot k = .ok s) (mem : e ∈ s.leaving)
    (stored : g.edges[e]? = some edge) : edge.source = k := by
  obtain ⟨j, place, found⟩ := slot_eq_ok_iff.mp there
  have bounds := place_eq_ok_iff.mp place
  have same : j = k := by omega
  rw [indexed.leaving j s found] at mem
  obtain ⟨other, again, source⟩ := mem_numbersWhere.mp mem
  rw [stored] at again
  cases again
  rw [of_decide_eq_true source, same]

theorem mem_leaving {g : Network} {k : Nat} {s : Slot} {e : Nat} {edge : Edge}
    (indexed : g.Indexed) (there : g.slot k = .ok s) (stored : g.edges[e]? = some edge)
    (source : edge.source = k) : e ∈ s.leaving := by
  obtain ⟨j, place, found⟩ := slot_eq_ok_iff.mp there
  have bounds := place_eq_ok_iff.mp place
  have same : j = k := by omega
  rw [indexed.leaving j s found, same]
  exact mem_numbersWhere.mpr ⟨edge, stored, decide_eq_true source⟩

theorem slot_of_size {g : Network} {k : Nat} (known : k < g.size) :
    ∃ s, g.slot k = .ok s := ⟨_, slot_natCast (Array.getElem?_eq_getElem known)⟩

section Indexed

variable {g : Network} (indexed : g.Indexed) {s : Settings}

include indexed

theorem ends_of_stored {e : Nat} {edge : Edge} (stored : g.edges[e]? = some edge) :
    ∃ j k : Nat, edge.source = j ∧ edge.target = k ∧ j < g.size ∧ k < g.size := by
  have bounds := indexed.inside edge (Array.mem_of_getElem? stored)
  exact ⟨edge.source.toNat, edge.target.toNat, by omega, by omega, by omega, by omega⟩

theorem slot_of_source {e : Nat} {edge : Edge} (stored : g.edges[e]? = some edge) {k : Nat}
    (source : edge.source = k) : ∃ slot, g.slot k = .ok slot := by
  obtain ⟨j, _, from_, _, known, _⟩ := ends_of_stored indexed stored
  rw [source, Int.natCast_inj] at from_
  exact slot_of_size (from_ ▸ known)

theorem mem_launches {v : Visit} :
    v ∈ g.launches s ↔ ∃ (e : Nat) (edge : Edge), g.edges[e]? = some edge ∧
      edge.source = accept ∧ v = ⟨[e], ⟨edge.target, edge.passage, s.domain, [accept]⟩⟩ := by
  constructor
  · intro begins
    unfold launches at begins
    split at begins
    · cases begins
    · rename_i slot there
      obtain ⟨e, mem, edge, stored, rfl⟩ := mem_spread.mp begins
      exact ⟨e, edge, stored, edge_of_mem_leaving indexed there mem stored, rfl⟩
  · intro ⟨e, edge, stored, source, same⟩
    obtain ⟨slot, there⟩ := slot_of_source indexed stored source
    unfold launches
    rw [there]
    exact mem_spread.mpr ⟨e, mem_leaving indexed there stored source, edge, stored, same⟩

theorem mem_children_iff {v child : Visit} {k : Nat} (place : v.branch.node = k) :
    child ∈ g.children v ↔ ∃ (box : Box) (edges : List Edge) (e : Nat) (edge : Edge),
      g.arrive v.branch = .ok (.fork box edges) ∧ g.edges[e]? = some edge ∧ edge.source = k ∧
      child = ⟨e :: v.trail, ⟨edge.target, edge.passage, box, v.branch.node :: v.branch.path⟩⟩ := by
  rw [mem_children]
  constructor
  · intro ⟨box, edges, slot, forked, there, along⟩
    obtain ⟨e, mem, edge, stored, same⟩ := mem_spread.mp along
    rw [place] at there
    exact ⟨box, edges, e, edge, forked, stored, edge_of_mem_leaving indexed there mem stored, same⟩
  · intro ⟨box, edges, e, edge, forked, stored, source, same⟩
    obtain ⟨slot, there⟩ := slot_of_source indexed stored source
    refine ⟨box, edges, slot, forked, place ▸ there, ?_⟩
    exact mem_spread.mpr ⟨e, mem_leaving indexed there stored source, edge, stored, same⟩

theorem reached_launch {v : Visit} (begins : v ∈ g.launches s) :
    ∃ e edge rest, g.Reached s v e edge rest := by
  obtain ⟨e, edge, stored, source, rfl⟩ := (mem_launches indexed).mp begins
  refine ⟨e, edge, [], rfl, stored, rfl, rfl, rfl, fun p => ?_, id, fun k only => ?_⟩
  · rw [source]
    exact ⟨fun within => ⟨within, .arrived⟩, And.left⟩
  · rw [List.mem_singleton.mp only]
    exact .single ⟨edge, Array.mem_of_getElem? stored, rfl, source⟩

theorem reached_child {v child : Visit} {e : Nat} {edge : Edge} {rest : List Nat}
    (reached : g.Reached s v e edge rest) (onward : child ∈ g.children v) :
    ∃ d next, g.Reached s child d next (e :: rest) := by
  obtain ⟨_, k, _, target, _, _⟩ := ends_of_stored indexed reached.stored
  have place := reached.node_eq.trans target
  obtain ⟨box, edges, d, next, forked, stored, source, rfl⟩ :=
    (mem_children_iff indexed place).mp onward
  obtain ⟨slot, there, arrived⟩ := arrived_of_arrive forked
  cases arrived with
  | fork _ _ _ narrowed feasible _ =>
    rw [← target] at source
    obtain ⟨attrs, members⟩ := Node.narrow_spec narrowed
    have lets (p : Point) : slot.node.Lets (valueOf v.branch.box.attrs p) v.branch.passage ↔
        slot.node.Lets (valueOf s.attrs p) edge.passage := by
      rw [reached.attrs_eq, reached.passage_eq]
    rw [reached.node_eq] at there
    refine ⟨d, next, by rw [reached.trail_eq], stored, rfl, rfl, attrs.trans reached.attrs_eq,
      fun p => ?_, fun _ => feasible, fun k mem => ?_⟩
    · rw [members, reached.mem_box, lets, source, and_assoc]
      refine and_congr_right fun _ => ⟨fun ⟨further, leaves⟩ => ?_, fun trail => ?_⟩
      · exact .along reached.stored there leaves further
      · generalize edge.target = n at trail
        cases trail with
        | along again located leaves further =>
          rw [reached.stored] at again
          cases again
          rw [there] at located
          cases located
          exact ⟨further, leaves⟩
    · have step : g.Leads next.target v.branch.node :=
        ⟨next, Array.mem_of_getElem? stored, rfl, source.trans reached.node_eq.symm⟩
      rcases List.mem_cons.mp mem with rfl | earlier
      · exact .single step
      · exact .head step (reached.path k earlier)

theorem reached_of_mem_visits {v : Visit} (mem : v ∈ g.visits s) :
    ∃ e edge rest, g.Reached s v e edge rest := by
  refine visits_induction (motive := fun v => ∃ e edge rest, g.Reached s v e edge rest)
    (fun v begins => reached_launch indexed begins) ?_ v mem
  intro v child ⟨e, edge, rest, reached⟩ onward
  obtain ⟨d, next, further⟩ := reached_child indexed reached onward
  exact ⟨d, next, _, further⟩

end Indexed

theorem region?_eq_some_iff {g : Network} {b : Branch} {s : Slot} {box : Box}
    (there : g.slot b.node = .ok s) : g.region? b = some box ↔ s.node = .start ∧ b.box = box := by
  constructor
  · intro emitted
    unfold region? at emitted
    split at emitted
    · rename_i arrives
      obtain ⟨_, again, arrived⟩ := arrived_of_arrive arrives
      cases there.symm.trans again
      cases arrived with
      | region start => exact ⟨start, Option.some.inj emitted⟩
    · cases emitted
  · intro ⟨start, same⟩
    rw [region?, arrive_start there start, same]

theorem fork_of_lets {g : Network} {b : Branch} {s : Slot} {p : Point}
    (there : g.slot b.node = .ok s) (within : p ∈ b.box)
    (lets : s.node.Lets (valueOf b.box.attrs p) b.passage) (fine : g.failure? b = none) :
    ∃ box edges, g.arrive b = .ok (.fork box edges) := by
  cases arrives : g.arrive b with
  | error fault =>
    unfold failure? at fine
    rw [arrives] at fine
    cases fine
  | ok arrival =>
    obtain ⟨_, again, arrived⟩ := arrived_of_arrive arrives
    cases there.symm.trans again
    cases arrived with
    | region start =>
      rw [start] at lets
      cases lets
    | pruned narrowed infeasible =>
      have inside := ((Node.narrow_spec narrowed).2 p).mpr ⟨within, lets⟩
      have feasible := (Box.isFeasible_iff _).mpr ⟨p, inside⟩
      rw [infeasible] at feasible
      cases feasible
    | fork _ _ _ _ _ _ => exact ⟨_, _, rfl⟩

def stops (g : Network) (trail : List Nat) : List Int :=
  (trail.filterMap fun e => g.edges[e]?.map (·.target)) ++ [(accept : Int)]

theorem stops_cons {g : Network} {e : Nat} {edge : Edge} (stored : g.edges[e]? = some edge)
    (rest : List Nat) : g.stops (e :: rest) = edge.target :: g.stops rest := by
  rw [stops, List.filterMap_cons, stored]
  rfl

theorem Trail.mem_stops {g : Network} {value : String → Int} {n : Int} {rest : List Nat}
    (trail : g.Trail value n rest) : n ∈ g.stops rest := by
  cases trail with
  | arrived => exact List.mem_singleton_self _
  | along stored _ _ _ =>
    rw [stops_cons stored]
    exact List.mem_cons_self

theorem path_of_mem_visits {g : Network} {s : Settings} {v : Visit} (mem : v ∈ g.visits s) :
    v.branch.path = g.stops v.trail.tail := by
  suffices entered : ∃ e edge rest, v.trail = e :: rest ∧ g.edges[e]? = some edge ∧
      v.branch.node = edge.target ∧ v.branch.path = g.stops rest by
    obtain ⟨e, edge, rest, trail, _, _, path⟩ := entered
    rw [path, trail, List.tail_cons]
  refine visits_induction (motive := fun v => ∃ e edge rest, v.trail = e :: rest ∧
    g.edges[e]? = some edge ∧ v.branch.node = edge.target ∧ v.branch.path = g.stops rest) ?_ ?_ v mem
  · intro v begins
    unfold launches at begins
    split at begins
    · cases begins
    · obtain ⟨e, _, edge, stored, rfl⟩ := mem_spread.mp begins
      exact ⟨e, edge, [], rfl, stored, rfl, rfl⟩
  · intro v child ⟨e, edge, rest, trail, stored, node, path⟩ onward
    obtain ⟨_, _, _, _, _, along⟩ := mem_children.mp onward
    obtain ⟨d, _, next, found, rfl⟩ := mem_spread.mp along
    refine ⟨d, next, v.trail, rfl, found, rfl, ?_⟩
    rw [trail, stops_cons stored, ← node, ← path]

theorem exists_visit_of_trail {g : Network} {s : Settings} (indexed : g.Indexed)
    (fine : ∀ v ∈ g.visits s, g.failure? v.branch = none) {p : Point} {n : Int} {rest : List Nat}
    (inside : p ∈ s.domain) (trail : g.Trail (valueOf s.attrs p) n rest) {e : Nat} {edge : Edge}
    (stored : g.edges[e]? = some edge) (source : edge.source = n) :
    ∃ v ∈ g.visits s, v.trail = e :: rest := by
  induction trail generalizing e edge with
  | arrived =>
    exact ⟨_, mem_visits_of_launch ((mem_launches indexed).mpr ⟨e, edge, stored, source, rfl⟩), rfl⟩
  | along before there lets further ih =>
    rename_i d last slot rest
    -- The edge before is visited, and as its box holds the point, the visit is not pruned.
    obtain ⟨v, visited, trail_eq⟩ := ih before rfl
    obtain ⟨d', last', rest', reached⟩ := reached_of_mem_visits indexed visited
    rw [reached.trail_eq, List.cons.injEq] at trail_eq
    obtain ⟨rfl, rfl⟩ := trail_eq
    have same := reached.stored
    rw [before] at same
    cases same
    rw [← reached.node_eq] at there
    have within := (reached.mem_box p).mpr ⟨inside, further⟩
    rw [← reached.attrs_eq, ← reached.passage_eq] at lets
    obtain ⟨box, edges, forked⟩ := fork_of_lets there within lets (fine v visited)
    obtain ⟨_, k, _, target, _, _⟩ := ends_of_stored indexed before
    have onward := (mem_children_iff indexed (reached.node_eq.trans target)).mpr
      ⟨box, edges, e, edge, forked, stored, source.trans target, rfl⟩
    exact ⟨_, mem_visits_of_child visited onward, by rw [reached.trail_eq]⟩

def NoTwins (g : Network) : Prop :=
  ∀ (e d : Nat) (edge other : Edge), g.edges[e]? = some edge → g.edges[d]? = some other →
    edge.target = other.target → edge.passage = other.passage → e = d

theorem Trail.unique {g : Network} {value : String → Int} {n : Int} {left right : List Nat}
    (ends : ∀ edge ∈ g.edges, edge.target ≠ accept) (single : g.NoTwins)
    (one : g.Trail value n left) (two : g.Trail value n right) : left = right := by
  induction one generalizing right with
  | arrived =>
    generalize place : (accept : Int) = n at two
    cases two with
    | arrived => rfl
    | along stored _ _ _ => exact absurd place.symm (ends _ (Array.mem_of_getElem? stored))
  | along stored there lets further ih =>
    rename_i e edge slot rest
    generalize place : edge.target = n at two
    cases two with
    | arrived => exact absurd place (ends _ (Array.mem_of_getElem? stored))
    | along again located leaves onward =>
      rw [place, located] at there
      cases there
      -- The point leaves the node in one way, and the edges that enter by it are one.
      have same := single _ _ _ _ stored again place (lets.passage_eq leaves)
      subst same
      rw [stored] at again
      cases again
      rw [ih onward]

end RouteVolume.Network
