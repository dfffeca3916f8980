import RouteVolume.Proofs.Network.Validity
import RouteVolume.Proofs.Wiring.Junctions

namespace RouteVolume

theorem filter_eq_singleton {α β : Type} [DecidableEq β] {f : α → β} {xs : List α} {x : α}
    (distinct : (xs.map f).Nodup) (mem : x ∈ xs) : xs.filter (fun y => f y = f x) = [x] := by
  induction xs with
  | nil => cases mem
  | cons y rest ih =>
    rw [List.map_cons, List.nodup_cons] at distinct
    rcases List.mem_cons.mp mem with rfl | later
    · have others : rest.filter (fun y => f y = f x) = [] := by
        apply List.filter_eq_nil_iff.mpr
        intro y within same
        apply distinct.1
        exact List.mem_map.mpr ⟨y, within, of_decide_eq_true same⟩
      rw [List.filter_cons_of_pos (by simp), others]
    · have differ : f y ≠ f x := fun same => distinct.1 (same ▸ List.mem_map_of_mem later)
      rw [List.filter_cons_of_neg (by simpa using differ), ih distinct.2 later]

theorem Junction.target_of_mem_edges {j : Junction} {e : Edge} (mem : e ∈ j.edges) :
    e.target = j.number := by
  unfold Junction.edges at mem
  rw [List.mem_pair] at mem
  rcases mem with rfl | rfl <;> rfl

theorem Junction.filter_flatMap_edges (js : List Junction) (k : Nat) :
    (js.flatMap Junction.edges).filter (fun e => e.target = (k : Int)) =
      (js.filter fun j => j.number = k).flatMap Junction.edges := by
  induction js with
  | nil => rfl
  | cons j rest ih =>
    rw [List.flatMap_cons, List.filter_append, ih, List.filter_cons]
    by_cases same : j.number = k
    · have own : j.edges.filter (fun e => e.target = (k : Int)) = j.edges := by
        apply List.filter_eq_self.mpr
        intro e mem
        apply decide_eq_true
        rw [target_of_mem_edges mem, same]
      rw [own, if_pos (decide_eq_true same), List.flatMap_cons]
    · have other : j.edges.filter (fun e => e.target = (k : Int)) = [] := by
        apply List.filter_eq_nil_iff.mpr
        intro e mem enters
        apply same
        have target := of_decide_eq_true enters
        rw [target_of_mem_edges mem] at target
        exact Int.natCast_inj.mp target
      rw [other, List.nil_append, if_neg (by simpa using same)]

structure Laid (g : Network) (js : List Junction) (first : Nat) : Prop where
  indexed : g.Indexed
  numbered : js.map (·.number) = List.range' 3 js.length
  nodes_eq : g.nodes = [.reject, .accept, .start] ++ js.map Junction.node
  edges_perm : g.edges.toList.Perm
    (js.flatMap Junction.edges ++ [⟨first, Network.start, .entry⟩])
  onward : ∀ j ∈ js, j.passed ≠ Network.start ∧ j.failed ≠ Network.start
  entered : first ≠ Network.start

namespace Laid

variable {g : Network} {js : List Junction} {first : Nat}

theorem distinct (laid : Laid g js first) : (js.map (·.number)).Nodup :=
  laid.numbered ▸ List.nodup_range'

theorem eq_of_number (laid : Laid g js first) {j k : Junction} (left : j ∈ js) (right : k ∈ js)
    (same : j.number = k.number) : j = k :=
  List.inj_on_of_nodup_map laid.distinct left right same

theorem number_ge (laid : Laid g js first) {j : Junction} (mem : j ∈ js) : 3 ≤ j.number := by
  have within : j.number ∈ js.map (·.number) := List.mem_map_of_mem mem
  rw [laid.numbered, List.mem_range'_1] at within
  exact within.1

theorem size_eq (laid : Laid g js first) : g.size = 3 + js.length := by
  rw [← Network.length_nodes, laid.nodes_eq, List.length_append, List.length_map]
  rfl

theorem edgesFrom_accept (laid : Laid g js first) :
    ∃ edges, g.edgesFrom Network.accept = .ok edges := by
  have known : Network.accept < g.size := by
    rw [laid.size_eq, Network.accept]
    omega
  exact ⟨_, laid.indexed.edgesFrom_eq known⟩

theorem node_of_mem (laid : Laid g js first) {j : Junction} (mem : j ∈ js) :
    g.nodes[j.number]? = some j.node := by
  obtain ⟨i, within, rfl⟩ := List.mem_iff_getElem.mp mem
  have number : js[i].number = 3 + i := by
    have both := congrArg (·[i]?) laid.numbered
    simp only [List.getElem?_map, List.getElem?_eq_getElem within, Option.map_some,
      List.getElem?_range' within] at both
    simpa using both
  rw [laid.nodes_eq, number, Nat.add_comm, List.getElem?_append_right (by simp)]
  simp [within]

theorem slot_cases (laid : Laid g js first) {k : Nat} {s : Slot} (stored : g.slots[k]? = some s) :
    k = Network.reject ∧ s.node = .reject ∨ k = Network.accept ∧ s.node = .accept ∨
      k = Network.start ∧ s.node = .start ∨ ∃ j ∈ js, k = j.number ∧ s.node = j.node := by
  have node := Network.node_of_slot stored
  by_cases early : k < 3
  · rw [laid.nodes_eq, List.getElem?_append_left (by simpa using early)] at node
    have : k = 0 ∨ k = 1 ∨ k = 2 := by omega
    rcases this with rfl | rfl | rfl
    · exact .inl ⟨rfl, (Option.some.inj node).symm⟩
    · exact .inr (.inl ⟨rfl, (Option.some.inj node).symm⟩)
    · exact .inr (.inr (.inl ⟨rfl, (Option.some.inj node).symm⟩))
  · have known : k < g.size := (Array.getElem?_eq_some_iff.mp stored).1
    have within : k ∈ js.map (·.number) := by
      rw [laid.numbered, List.mem_range'_1]
      have := laid.size_eq
      omega
    obtain ⟨j, mem, rfl⟩ := List.mem_map.mp within
    rw [laid.node_of_mem mem] at node
    exact .inr (.inr (.inr ⟨j, mem, rfl, (Option.some.inj node).symm⟩))

theorem slot_of_mem (laid : Laid g js first) {j : Junction} (mem : j ∈ js) :
    ∃ s, g.slots[j.number]? = some s ∧ s.node = j.node :=
  Network.exists_slot_of_node (laid.node_of_mem mem)

theorem slot_start (laid : Laid g js first) :
    ∃ s, g.slots[Network.start]? = some s ∧ s.node = .start := by
  apply Network.exists_slot_of_node
  rw [laid.nodes_eq]
  rfl

theorem mem_edges (laid : Laid g js first) {e : Edge} :
    e ∈ g.edges ↔ (∃ j ∈ js, e ∈ j.edges) ∨ e = ⟨first, Network.start, .entry⟩ := by
  rw [← Array.mem_toList_iff, laid.edges_perm.mem_iff, List.mem_append, List.mem_flatMap,
    List.mem_singleton]

theorem target_ne_start (laid : Laid g js first) {j : Junction} (mem : j ∈ js) {e : Edge}
    (own : e ∈ j.edges) : e.target ≠ Network.start := by
  have late := laid.number_ge mem
  rw [Junction.target_of_mem_edges own, Network.start]
  omega

theorem entering (laid : Laid g js first) {j : Junction} (mem : j ∈ js) :
    (g.edges.toList.filter fun e => e.target = (j.number : Int)).Perm j.edges := by
  refine (laid.edges_perm.filter _).trans (List.Perm.of_eq ?_)
  have late := laid.number_ge mem
  have elsewhere : ¬ ((Network.start : Nat) : Int) = j.number := by
    unfold Network.start
    omega
  rw [List.filter_append, Junction.filter_flatMap_edges, filter_eq_singleton laid.distinct mem,
    List.filter_cons_of_neg (by simpa using elsewhere), List.filter_nil, List.append_nil,
    List.flatMap_singleton]

theorem target_cases (laid : Laid g js first) {e : Edge} (mem : e ∈ g.edges) :
    (∃ j ∈ js, e ∈ j.edges ∧ e.target = j.number) ∨
      e = ⟨first, Network.start, .entry⟩ := by
  rcases laid.mem_edges.mp mem with ⟨j, within, own⟩ | entry
  · exact .inl ⟨j, within, own, Junction.target_of_mem_edges own⟩
  · exact .inr entry

theorem target_ge (laid : Laid g js first) {e : Edge} (mem : e ∈ g.edges) :
    (Network.start : Int) ≤ e.target := by
  rcases laid.target_cases mem with ⟨j, within, _, target⟩ | rfl
  · have := laid.number_ge within
    rw [target, Network.start]
    omega
  · exact Int.le_refl _

theorem source_ne_start (laid : Laid g js first) {e : Edge} (mem : e ∈ g.edges) :
    e.source ≠ Network.start := by
  rcases laid.mem_edges.mp mem with ⟨j, within, own⟩ | rfl
  · obtain ⟨passed, failed⟩ := laid.onward j within
    unfold Junction.edges at own
    rw [List.mem_pair] at own
    rcases own with rfl | rfl
    · exact fun same => passed (Int.natCast_inj.mp same)
    · exact fun same => failed (Int.natCast_inj.mp same)
  · exact fun same => laid.entered (Int.natCast_inj.mp same)

theorem entry_of_target (laid : Laid g js first) {e : Edge} (mem : e ∈ g.edges)
    (target : e.target = Network.start) : e = ⟨first, Network.start, .entry⟩ := by
  rcases laid.mem_edges.mp mem with ⟨j, within, own⟩ | entry
  · exact absurd target (laid.target_ne_start within own)
  · exact entry

theorem entering_end (laid : Laid g js first) {k : Nat} {s : Slot}
    (stored : g.slots[k]? = some s) (isEnd : k < Network.start) : s.entering = [] := by
  rw [laid.indexed.entering k s stored]
  apply Network.numbersWhere_eq_nil
  intro e mem
  apply decide_eq_false
  intro same
  have := laid.target_ge mem
  omega

theorem leaving_start (laid : Laid g js first) {s : Slot}
    (stored : g.slots[Network.start]? = some s) : s.leaving = [] := by
  rw [laid.indexed.leaving _ s stored]
  exact Network.numbersWhere_eq_nil fun e mem => decide_eq_false (laid.source_ne_start mem)

theorem checkSlot_eq (laid : Laid g js first) {k : Nat} {s : Slot}
    (stored : g.slots[k]? = some s) : g.checkSlot s = .ok () := by
  refine Network.checkSlot_eq_ok_iff.mpr ⟨_, laid.indexed.entering_eq stored, ?_⟩
  unfold Slot.Fits
  rcases laid.slot_cases stored with ⟨rfl, node⟩ | ⟨rfl, node⟩ | ⟨rfl, node⟩ | ⟨j, mem, rfl, node⟩
  · rw [node]
    exact laid.entering_end stored (by decide)
  · rw [node]
    exact laid.entering_end stored (by decide)
  · rw [node]
    refine ⟨laid.leaving_start stored, fun e mem => ?_⟩
    obtain ⟨within, target⟩ := List.mem_filter.mp mem
    rw [laid.entry_of_target (Array.mem_toList_iff.mp within) (of_decide_eq_true target)]
  · have counted (p : Passage) : Network.passages
        (g.edges.toList.filter fun e => e.target = (j.number : Int)) p =
          Network.passages j.edges p := (laid.entering mem).countP_eq _
    simp only [node, Junction.node, Node.ofRule, Node.kind, counted]
    exact ⟨rfl, rfl, rfl⟩

theorem validate_eq (laid : Laid g js first) : g.validate = .ok () := by
  apply forM_eq_ok_iff.mpr
  intro s mem
  obtain ⟨k, _, stored⟩ := Array.mem_iff_getElem.mp (Array.mem_toList_iff.mp mem)
  exact laid.checkSlot_eq (Array.getElem?_eq_some_iff.mpr ⟨_, stored⟩)

theorem freeze (laid : Laid g js first) : Laid g.freeze js first where
  indexed := ⟨laid.indexed.leaving, laid.indexed.entering, laid.indexed.inside⟩
  numbered := laid.numbered
  nodes_eq := laid.nodes_eq
  edges_perm := laid.edges_perm
  onward := laid.onward
  entered := laid.entered

end Laid

end RouteVolume
