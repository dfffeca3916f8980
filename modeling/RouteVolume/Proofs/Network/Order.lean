import RouteVolume.Proofs.Network.Renumbering

namespace RouteVolume.Network

/-- Networks made from the empty one by adding nodes, and edges whose ends are there. The source of
an edge is counted from the back only when the nodes are complete: while nodes are still added, such
a number means a different node each time. -/
inductive Composed (complete : Nat) : Network → Prop
  | empty : Composed complete .empty
  | node {g h : Network} (node : Node) {number : Nat} (before : Composed complete g)
      (added : g.addNode node = .ok (h, number)) : Composed complete h
  | edge {g h : Network} (edge : Edge) {stored : Edge} (before : Composed complete g)
      (settled : 0 ≤ edge.source ∨ g.size = complete)
      (added : g.addEdge edge = (h, .ok stored)) : Composed complete h

theorem Composed.assembled {complete : Nat} {g : Network} (composed : g.Composed complete) :
    g.Assembled := by
  induction composed with
  | empty => exact .empty
  | node node _ added ih => exact .node node ih added
  | edge edge _ _ added ih => exact .edge edge ih added

def fromFront (size : Nat) (k : Int) : Int := if k < 0 then k + size else k

structure Settled (complete : Nat) (g : Network) : Prop where
  inside : ∀ edge ∈ g.edges, fromFront complete edge.source < g.size
  sources : ∀ (j : Nat) (s : Slot) (e : Nat) (edge : Edge), g.slots[j]? = some s →
    g.edges[e]? = some edge → (e ∈ s.leaving ↔ fromFront complete edge.source = j)

namespace Settled

theorem empty (complete : Nat) : Network.empty.Settled complete where
  inside := fun edge mem => absurd mem (Array.not_mem_empty edge)
  sources := fun _ _ _ _ _ stored => nomatch stored

theorem addNode {complete : Nat} {g h : Network} {node : Node} {number : Nat}
    (settled : g.Settled complete) (added : g.addNode node = .ok (h, number)) :
    h.Settled complete := by
  obtain ⟨slots, edges⟩ := addNode_inv added
  have larger : h.size = g.size + 1 := by
    unfold size
    rw [slots, Array.size_push]
  refine ⟨fun edge mem => ?_, fun j s e edge there stored => ?_⟩
  · rw [edges] at mem
    have := settled.inside edge mem
    omega
  · rw [edges] at stored
    rw [slots, Array.getElem?_push] at there
    split at there
    · rename_i last
      cases there
      have := settled.inside edge (Array.mem_of_getElem? stored)
      unfold size at this
      simp only [List.not_mem_nil, false_iff]
      omega
    · exact settled.sources j s e edge there stored

theorem addEdge {complete : Nat} {g h : Network} {edge stored : Edge} (listed : g.Listed)
    (settled : g.Settled complete) (meant : 0 ≤ edge.source ∨ g.size = complete)
    (added : g.addEdge edge = (h, .ok stored)) : h.Settled complete := by
  obtain ⟨source, from_, size, edges, before⟩ := addEdge_inv added
  have given : fromFront complete edge.source = source ∧ source < g.size := by
    have := place_eq_ok_iff.mp from_
    unfold fromFront
    split <;> omega
  refine ⟨fun other mem => ?_, fun j s e other there found => ?_⟩
  · rw [size]
    rw [edges, Array.mem_push] at mem
    rcases mem with old | rfl
    · exact settled.inside other old
    · omega
  · obtain ⟨old, earlier, leaving⟩ := before j s there
    rw [edges, Array.getElem?_push] at found
    rw [leaving, List.mem_append]
    split at found
    · rename_i last
      subst last
      obtain rfl := Option.some.inj found
      have fresh : g.edges.size ∉ old.leaving := fun mem =>
        Nat.lt_irrefl _ (listed.inUse j old earlier _ mem)
      rw [given.1, Int.natCast_inj]
      by_cases here : source = j <;> simp [here, fresh]
    · rename_i other_
      rw [← settled.sources j old e other earlier found]
      by_cases here : source = j <;> simp [here, other_]

end Settled

theorem Composed.settled {complete : Nat} {g : Network} (composed : g.Composed complete) :
    g.Settled complete := by
  induction composed with
  | empty => exact Settled.empty complete
  | node _ _ added ih => exact ih.addNode added
  | edge _ before meant added ih => exact Settled.addEdge before.assembled.listed ih meant added

theorem map_some_filterMap {α β : Type} {f : α → Option β} {xs : List α}
    (all : ∀ x ∈ xs, (f x).isSome) : xs.map f = (xs.filterMap f).map some := by
  rw [List.map_filterMap_some_eq_filter_map_isSome, List.filter_eq_self.mpr]
  exact List.forall_mem_map.mpr all

theorem edgesFrom_of_settled {complete : Nat} {g : Network} (listed : g.Listed)
    (settled : g.Settled complete) {k : Int} {j : Nat} (points : place g.size k = .ok j) :
    ∃ edges, g.edgesFrom k = .ok edges ∧
      edges.Perm (g.edges.toList.filter fun e => fromFront complete e.source = j) := by
  have known : j < g.slots.size := (place_eq_ok_iff.mp points).1
  obtain ⟨s, there⟩ : ∃ s, g.slots[j]? = some s := ⟨_, Array.getElem?_eq_getElem known⟩
  have inUse (e : Nat) (mem : e ∈ s.leaving) : (g.edges[e]?).isSome := by
    rw [Array.getElem?_eq_getElem (listed.inUse j s there e mem)]
    rfl
  have read : s.leaving.mapM g.edge = .ok (s.leaving.filterMap (g.edges[·]?)) :=
    mapM_edge_eq_ok_iff.mpr (map_some_filterMap inUse)
  refine ⟨_, edgesFrom_eq_ok_iff.mpr ⟨s, slot_eq_ok_iff.mpr ⟨j, points, there⟩, read⟩, ?_⟩
  have same : s.leaving.Perm (g.numbersWhere fun e => fromFront complete e.source = j) := by
    refine (List.perm_ext_iff_of_nodup (listed.nodup j s there) (nodup_numbersWhere g _)).mpr ?_
    intro e
    rw [mem_numbersWhere]
    constructor
    · intro mem
      obtain ⟨edge, stored⟩ := Option.isSome_iff_exists.mp (inUse e mem)
      exact ⟨edge, stored, decide_eq_true ((settled.sources j s e edge there stored).mp mem)⟩
    · intro ⟨edge, stored, source⟩
      exact (settled.sources j s e edge there stored).mpr (of_decide_eq_true source)
  have all := congrArg (List.filterMap id)
    (g.map_numbersWhere fun e => fromFront complete e.source = j)
  rw [List.filterMap_map, List.filterMap_map] at all
  exact (same.filterMap _).trans (List.Perm.of_eq (all.trans (by simp)))

structure Alike (g h : Network) : Prop where
  node_eq : ∀ k, g.node k = h.node k
  edges_perm : ∀ k n, g.node k = .ok n →
    ∃ es fs, g.edgesFrom k = .ok es ∧ h.edgesFrom k = .ok fs ∧ es.Perm fs

theorem size_eq_of_nodes {g h : Network} (same : g.nodes = h.nodes) : g.size = h.size := by
  rw [← length_nodes, ← length_nodes, same]

theorem node_eq_of_nodes {g h : Network} (same : g.nodes = h.nodes) (k : Int) :
    g.node k = h.node k := by
  have read (g : Network) : g.node k = (do
      let j ← place g.size k
      match g.nodes[j]? with
      | some n => pure n
      | none => throw .missingIndex) := by
    unfold node slot nodes
    simp only [bind, Except.bind, List.getElem?_map, Array.getElem?_toList]
    cases place g.size k with
    | error fault => rfl
    | ok j =>
      dsimp only
      cases g.slots[j]? <;> rfl
  rw [read, read, size_eq_of_nodes same, same]

theorem alike_of_composed {g h : Network} (left : g.Composed g.size) (right : h.Composed h.size)
    (same : g.nodes = h.nodes) (edges : g.edges.toList.Perm h.edges.toList) : g.Alike h := by
  have size := size_eq_of_nodes same
  refine ⟨node_eq_of_nodes same, fun k n there => ?_⟩
  obtain ⟨s, stored, _⟩ := node_eq_ok_iff.mp there
  obtain ⟨j, points, _⟩ := slot_eq_ok_iff.mp stored
  obtain ⟨es, one, ofG⟩ := edgesFrom_of_settled left.assembled.listed left.settled points
  rw [size] at points
  obtain ⟨fs, two, ofH⟩ := edgesFrom_of_settled right.assembled.listed right.settled points
  rw [← size] at ofH
  exact ⟨es, fs, one, two, ofG.trans ((edges.filter _).trans ofH.symm)⟩

theorem Alike.renumbers {g h : Network} (alike : g.Alike h) :
    g.Renumbers h (fun _ => True) id where
  injective := fun _ _ _ _ same => same
  missing := fun k fault _ lost => ⟨fault, (alike.node_eq k).symm.trans lost⟩
  node := fun k n _ there => ⟨n, (alike.node_eq k).symm.trans there, .refl n⟩
  edges := by
    intro k n _ there
    obtain ⟨es, fs, ofG, ofH, perm⟩ := alike.edges_perm k n there
    exact ⟨es, fs, ofG, ofH, perm.map _, fun _ _ => trivial⟩

theorem three_le_size {g : Network} (assembled : g.Assembled) : 3 ≤ g.size := by
  induction assembled with
  | empty => exact Nat.le_refl 3
  | node _ _ added ih =>
    obtain ⟨slots, _⟩ := addNode_inv added
    unfold size at ih ⊢
    rw [slots, Array.size_push]
    omega
  | edge _ _ added ih =>
    obtain ⟨_, _, size, _⟩ := addEdge_inv added
    omega

/-- Where the same edges are added to the same nodes in two orders, both walks fail or neither does;
and if neither does, they find the same regions, each as often, and count the same. -/
theorem walk_ignores_order {g h : Network} {s : Settings} (left : g.Composed g.size)
    (right : h.Composed h.size) (same : g.nodes = h.nodes)
    (edges : g.edges.toList.Perm h.edges.toList) :
    ((∃ fault, (g.walk s).result = .error fault) ↔ ∃ fault, (h.walk s).result = .error fault) ∧
    ∀ found more, (g.walk s).result = .ok found → (h.walk s).result = .ok more →
      found.Perm more ∧ (g.walk s).tally = (h.walk s).tally := by
  have known : accept < g.size := Nat.lt_of_lt_of_le (by decide) (three_le_size left.assembled)
  obtain ⟨slot, there⟩ := slot_of_size known
  have accepts : g.node accept = .ok slot.node := node_eq_ok_iff.mpr ⟨slot, there, rfl⟩
  exact (alike_of_composed left right same edges).renumbers.walks_alike trivial rfl accepts s

/-- The edges of `doubled` in the opposite order. -/
def doubledBack : Network where
  slots := #[
    { node := .reject },
    { node := .accept, leaving := [4, 5] },
    { node := .start, entering := [0, 1, 2] },
    { node := .condition "x" (.below 3) "in" 0, leaving := [0, 3], entering := [4, 5] },
    { node := .condition "x" (.above 3) "in" 1, leaving := [1, 2], entering := [3] }]
  edges := #[⟨-2, 2, .entry⟩, ⟨4, 2, .entry⟩, ⟨4, 2, .entry⟩, ⟨3, 4, .pass⟩, ⟨1, 3, .fail⟩,
    ⟨1, 3, .pass⟩]
  frozen := false

def unlinked : Network where
  slots := Network.empty.slots ++ #[{ node := .condition "x" (.below 3) "in" 0 },
    { node := .condition "x" (.above 3) "in" 1 }]
  edges := #[]
  frozen := false

theorem composed_unlinked : unlinked.Composed 5 :=
  .node (.condition "x" (.above 3) "in" 1) (.node (.condition "x" (.below 3) "in" 0) .empty rfl) rfl

theorem composed_doubled : doubled.Composed doubled.size := by
  have conditions := Composed.edge ⟨3, 4, .pass⟩ (.edge ⟨1, 3, .fail⟩
    (.edge ⟨1, 3, .pass⟩ composed_unlinked (.inl (by decide)) rfl) (.inl (by decide)) rfl)
    (.inl (by decide)) rfl
  exact .edge ⟨-2, 2, .entry⟩ (.edge ⟨4, 2, .entry⟩ (.edge ⟨4, 2, .entry⟩ conditions
    (.inl (by decide)) rfl) (.inl (by decide)) rfl) (.inr rfl) rfl

theorem composed_doubledBack : doubledBack.Composed doubledBack.size := by
  have entries := Composed.edge ⟨4, 2, .entry⟩ (.edge ⟨4, 2, .entry⟩
    (.edge ⟨-2, 2, .entry⟩ composed_unlinked (.inr rfl) rfl) (.inl (by decide)) rfl)
    (.inl (by decide)) rfl
  exact .edge ⟨1, 3, .pass⟩ (.edge ⟨1, 3, .fail⟩ (.edge ⟨3, 4, .pass⟩ entries
    (.inl (by decide)) rfl) (.inl (by decide)) rfl) (.inl (by decide)) rfl

theorem doubled_walked_alike : ∃ found more, (doubled.walk line).result = .ok found ∧
    (doubledBack.walk line).result = .ok more ∧ found ≠ more ∧ found.Perm more ∧
    (doubled.walk line).tally = (doubledBack.walk line).tally := by
  have ended : (doubled.walk line).fault? = none ∧ (doubledBack.walk line).fault? = none ∧
      (doubled.walk line).regions.reverse ≠ (doubledBack.walk line).regions.reverse := by
    decide +kernel
  obtain ⟨one, two, differ⟩ := ended
  have walked : (doubled.walk line).result = .ok (doubled.walk line).regions.reverse := by
    rw [Walk.result, one]
  have again : (doubledBack.walk line).result = .ok (doubledBack.walk line).regions.reverse := by
    rw [Walk.result, two]
  have perm : doubled.edges.toList.Perm doubledBack.edges.toList := by decide
  obtain ⟨regions, tally⟩ :=
    (walk_ignores_order composed_doubled composed_doubledBack rfl perm).2 _ _ walked again
  exact ⟨_, _, walked, again, differ, regions, tally⟩

end RouteVolume.Network
