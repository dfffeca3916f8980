import Mathlib.Data.List.Basic
import RouteVolume.Backtrack
import RouteVolume.Network

namespace RouteVolume.Network

def numbersWhere (g : Network) (p : Edge → Bool) : List Nat :=
  (List.range g.edges.size).filter fun e => g.edges[e]?.any p

structure Indexed (g : Network) : Prop where
  leaving : ∀ (k : Nat) (s : Slot), g.slots[k]? = some s →
    s.leaving = g.numbersWhere fun e => e.source = k
  entering : ∀ (k : Nat) (s : Slot), g.slots[k]? = some s →
    s.entering = g.numbersWhere fun e => e.target = k
  inside : ∀ e ∈ g.edges, (0 ≤ e.source ∧ e.source < g.size) ∧ 0 ≤ e.target ∧ e.target < g.size

theorem mem_numbersWhere {g : Network} {p : Edge → Bool} {e : Nat} :
    e ∈ g.numbersWhere p ↔ ∃ edge, g.edges[e]? = some edge ∧ p edge = true := by
  unfold numbersWhere
  rw [List.mem_filter, List.mem_range, Option.any_eq_true]
  constructor
  · exact fun ⟨_, stored⟩ => stored
  · intro ⟨edge, stored, holds⟩
    exact ⟨(Array.getElem?_eq_some_iff.mp stored).1, edge, stored, holds⟩

theorem nodup_numbersWhere (g : Network) (p : Edge → Bool) : (g.numbersWhere p).Nodup :=
  List.nodup_range.filter _

theorem numbersWhere_eq_nil {g : Network} {p : Edge → Bool}
    (never : ∀ e ∈ g.edges, p e = false) : g.numbersWhere p = [] := by
  rw [List.eq_nil_iff_forall_not_mem]
  intro e mem
  obtain ⟨edge, stored, holds⟩ := mem_numbersWhere.mp mem
  rw [never edge (Array.mem_of_getElem? stored)] at holds
  cases holds

theorem numbersWhere_push {g h : Network} {edge : Edge} (pushed : h.edges = g.edges.push edge)
    (p : Edge → Bool) :
    h.numbersWhere p = g.numbersWhere p ++ if p edge then [g.edges.size] else [] := by
  have earlier : (List.range g.edges.size).filter (fun e => h.edges[e]?.any p) =
      g.numbersWhere p := by
    apply List.filter_congr
    intro e mem
    rw [pushed, Array.getElem?_push_lt (List.mem_range.mp mem),
      Array.getElem?_eq_getElem (List.mem_range.mp mem)]
  rw [numbersWhere, pushed, Array.size_push, List.range_succ, List.filter_append, ← pushed, earlier,
    pushed, List.filter_singleton, Array.getElem?_push_size, Option.any_some, Bool.cond_eq_ite]

theorem map_numbersWhere (g : Network) (p : Edge → Bool) :
    (g.numbersWhere p).map (g.edges[·]?) = (g.edges.toList.filter p).map some := by
  have all : (List.range g.edges.size).map (g.edges[·]?) = g.edges.toList.map some := by
    apply List.ext_getElem (by simp)
    intro e short _
    simp only [List.getElem_map, List.getElem_range, Array.getElem_toList]
    exact Array.getElem?_eq_getElem _
  calc (g.numbersWhere p).map (g.edges[·]?)
      = ((List.range g.edges.size).map (g.edges[·]?)).filter (Option.any p) := by
        rw [List.filter_map]
        rfl
    _ = (g.edges.toList.map some).filter (Option.any p) := by rw [all]
    _ = (g.edges.toList.filter p).map some := List.filter_map

theorem mapM_edge_eq_ok_iff {g : Network} {numbers : List Nat} {edges : List Edge} :
    numbers.mapM g.edge = .ok edges ↔ numbers.map (g.edges[·]?) = edges.map some := by
  induction numbers generalizing edges with
  | nil =>
    rw [List.mapM_nil, List.map_nil, eq_comm (b := edges.map some), List.map_eq_nil_iff]
    simp only [pure, Except.pure, Except.ok.injEq]
    exact eq_comm
  | cons e rest ih =>
    rw [List.mapM_cons, List.map_cons]
    simp only [Network.edge, bind, Except.bind, pure, Except.pure]
    cases stored : g.edges[e]? with
    | none => cases edges <;> simp
    | some first =>
      cases edges with
      | nil => cases rest.mapM g.edge <;> simp
      | cons head others =>
        rw [List.map_cons, List.cons.injEq, ← ih]
        cases rest.mapM g.edge <;> simp

section Read

variable {g : Network} {numbers : List Nat} {edges : List Edge} (read : numbers.mapM g.edge = .ok edges)

include read

theorem stored_of_mapM_edge {e : Nat} (mem : e ∈ numbers) :
    ∃ edge ∈ edges, g.edges[e]? = some edge := by
  have listed := List.mem_map_of_mem (f := (g.edges[·]?)) mem
  rw [mapM_edge_eq_ok_iff.mp read] at listed
  obtain ⟨edge, inside, same⟩ := List.mem_map.mp listed
  exact ⟨edge, inside, same.symm⟩

theorem mem_edges_of_mapM_edge {edge : Edge} (mem : edge ∈ edges) : edge ∈ g.edges := by
  have listed := List.mem_map_of_mem (f := some) mem
  rw [← mapM_edge_eq_ok_iff.mp read] at listed
  obtain ⟨e, _, stored⟩ := List.mem_map.mp listed
  exact Array.mem_of_getElem? stored

end Read

theorem slot_natCast {g : Network} {k : Nat} {s : Slot} (stored : g.slots[k]? = some s) :
    g.slot k = .ok s :=
  slot_eq_ok_iff.mpr ⟨k, place_natCast (Array.getElem?_eq_some_iff.mp stored).1, stored⟩

namespace Indexed

theorem edgesFrom_eq {g : Network} {k : Nat} (indexed : g.Indexed) (known : k < g.size) :
    g.edgesFrom k = .ok (g.edges.toList.filter fun e => e.source = k) := by
  have stored : g.slots[k]? = some g.slots[k] := Array.getElem?_eq_getElem known
  unfold edgesFrom
  rw [slot_natCast stored]
  exact mapM_edge_eq_ok_iff.mpr (indexed.leaving k _ stored ▸ map_numbersWhere g _)

theorem entering_eq {g : Network} {k : Nat} {s : Slot} (indexed : g.Indexed)
    (stored : g.slots[k]? = some s) :
    s.entering.mapM g.edge = .ok (g.edges.toList.filter fun e => e.target = k) :=
  mapM_edge_eq_ok_iff.mpr (indexed.entering k s stored ▸ map_numbersWhere g _)

theorem empty : Network.empty.Indexed := by
  have bare (k : Nat) (s : Slot) (stored : Network.empty.slots[k]? = some s) :
      s.leaving = [] ∧ s.entering = [] := by
    have mem := Array.mem_of_getElem? stored
    simp only [Network.empty, List.mem_toArray, List.mem_cons, List.not_mem_nil, or_false] at mem
    rcases mem with rfl | rfl | rfl <;> exact ⟨rfl, rfl⟩
  exact ⟨fun k s stored => (bare k s stored).1, fun k s stored => (bare k s stored).2, nofun⟩

end Indexed

theorem length_nodes (g : Network) : g.nodes.length = g.size := by
  unfold nodes
  rw [List.length_map, Array.length_toList, size]

theorem exists_slot_of_node {g : Network} {k : Nat} {n : Node} (there : g.nodes[k]? = some n) :
    ∃ s, g.slots[k]? = some s ∧ s.node = n := by
  unfold nodes at there
  rw [List.getElem?_map, Array.getElem?_toList] at there
  exact Option.map_eq_some_iff.mp there

theorem node_of_slot {g : Network} {k : Nat} {s : Slot} (stored : g.slots[k]? = some s) :
    g.nodes[k]? = some s.node := by
  rw [nodes, List.getElem?_map, Array.getElem?_toList, stored]
  rfl

structure Growing (g : Network) : Prop where
  indexed : g.Indexed
  mutable : g.frozen = false

theorem Indexed.unused {g : Network} (indexed : g.Indexed) :
    (g.numbersWhere fun e => e.source = g.size) = [] ∧
      (g.numbersWhere fun e => e.target = g.size) = [] := by
  constructor
  · apply numbersWhere_eq_nil
    intro e mem
    apply decide_eq_false
    intro same
    have bounds := indexed.inside e mem
    omega
  · apply numbersWhere_eq_nil
    intro e mem
    apply decide_eq_false
    intro same
    have bounds := indexed.inside e mem
    omega

structure Grown (g : Network) (nodes : List Node) (edges : List Edge) (h : Network) : Prop where
  growing : h.Growing
  nodes_eq : h.nodes = g.nodes ++ nodes
  edges_eq : h.edges.toList = g.edges.toList ++ edges

theorem Grown.trans {g h k : Network} {nodes more : List Node} {edges further : List Edge}
    (first : g.Grown nodes edges h) (second : h.Grown more further k) :
    g.Grown (nodes ++ more) (edges ++ further) k where
  growing := second.growing
  nodes_eq := by rw [second.nodes_eq, first.nodes_eq, List.append_assoc]
  edges_eq := by rw [second.edges_eq, first.edges_eq, List.append_assoc]

theorem Grown.refl {g : Network} (growing : g.Growing) : g.Grown [] [] g :=
  ⟨growing, (List.append_nil _).symm, (List.append_nil _).symm⟩

theorem Grown.size_eq {g h : Network} {nodes : List Node} {edges : List Edge}
    (grown : g.Grown nodes edges h) : h.size = g.size + nodes.length := by
  rw [← length_nodes, grown.nodes_eq, List.length_append, length_nodes]

theorem Grown.size_eq_of_edges {g h : Network} {edges : List Edge} (grown : g.Grown [] edges h) :
    h.size = g.size := grown.size_eq

theorem addNode_spec {g : Network} (growing : g.Growing) (node : Node) :
    ∃ h, g.addNode node = .ok (h, g.size) ∧ g.Grown [node] [] h := by
  obtain ⟨indexed, mutable⟩ := growing
  obtain ⟨noneLeaves, noneEnters⟩ := indexed.unused
  refine ⟨{ g with slots := g.slots.push { node := node } }, ?_, ⟨⟨?_, ?_, ?_⟩, mutable⟩, ?_,
    (List.append_nil _).symm⟩
  · rw [addNode, if_neg (by simp [mutable])]
  · intro k s stored
    rw [Array.getElem?_push] at stored
    split at stored
    · rename_i last
      cases stored
      rw [last]
      exact noneLeaves.symm
    · exact indexed.leaving k s stored
  · intro k s stored
    rw [Array.getElem?_push] at stored
    split at stored
    · rename_i last
      cases stored
      rw [last]
      exact noneEnters.symm
    · exact indexed.entering k s stored
  · intro e mem
    have bounds := indexed.inside e mem
    unfold size at bounds ⊢
    rw [Array.size_push]
    omega
  · rw [nodes, nodes, Array.toList_push, List.map_append, List.map_singleton]

def linkSlots (g : Network) (source target : Nat) : Array Slot :=
  (g.slots.modify source fun s => { s with leaving := s.leaving ++ [g.edges.size] }).modify target
    fun s => { s with entering := s.entering ++ [g.edges.size] }

theorem getElem?_linkSlots (g : Network) (source target k : Nat) :
    (g.linkSlots source target)[k]? = g.slots[k]?.map fun s =>
      { node := s.node
        leaving := s.leaving ++ if source = k then [g.edges.size] else []
        entering := s.entering ++ if target = k then [g.edges.size] else [] } := by
  unfold linkSlots
  rw [Array.getElem?_modify, Array.getElem?_modify]
  cases g.slots[k]? with
  | none => simp
  | some s => by_cases from_ : source = k <;> by_cases to_ : target = k <;> simp [from_, to_]

def linked (g : Network) (source target : Nat) (passage : Passage) : Network where
  slots := g.linkSlots source target
  edges := g.edges.push ⟨source, target, passage⟩
  frozen := g.frozen

theorem size_linked (g : Network) (source target : Nat) (passage : Passage) :
    (g.linked source target passage).size = g.size := by
  rw [size, linked, linkSlots, Array.size_modify, Array.size_modify, size]

theorem numbersWhere_linked (g : Network) (source target : Nat) (passage : Passage)
    (p : Edge → Bool) :
    (g.linked source target passage).numbersWhere p =
      g.numbersWhere p ++ if p ⟨source, target, passage⟩ then [g.edges.size] else [] :=
  numbersWhere_push rfl p

theorem nodes_linked (g : Network) (source target : Nat) (passage : Passage) :
    (g.linked source target passage).nodes = g.nodes := by
  apply List.ext_getElem?
  intro k
  rw [nodes, nodes, List.getElem?_map, List.getElem?_map, Array.getElem?_toList,
    Array.getElem?_toList, linked, getElem?_linkSlots]
  cases g.slots[k]? <;> rfl

theorem Indexed.linked {g : Network} {source target : Nat} (indexed : g.Indexed)
    (known : source < g.size) (reached : target < g.size) (passage : Passage) :
    (g.linked source target passage).Indexed := by
  refine ⟨fun k s stored => ?_, fun k s stored => ?_, fun e mem => ?_⟩
  · unfold Network.linked at stored
    rw [getElem?_linkSlots] at stored
    obtain ⟨before, old, rfl⟩ := Option.map_eq_some_iff.mp stored
    rw [numbersWhere_linked, indexed.leaving k before old]
    simp only [decide_eq_true_eq, Int.natCast_inj]
  · unfold Network.linked at stored
    rw [getElem?_linkSlots] at stored
    obtain ⟨before, old, rfl⟩ := Option.map_eq_some_iff.mp stored
    rw [numbersWhere_linked, indexed.entering k before old]
    simp only [decide_eq_true_eq, Int.natCast_inj]
  · rw [size_linked]
    rcases Array.mem_push.mp mem with old | rfl
    · exact indexed.inside e old
    · simp only
      omega

theorem addEdge_linked {g : Network} {source target : Nat} (mutable : g.frozen = false)
    (known : source < g.size) (reached : target < g.size) (passage : Passage) :
    g.addEdge ⟨source, target, passage⟩ =
      (g.linked source target passage, .ok ⟨source, target, passage⟩) := by
  simp only [addEdge, mutable, place_natCast known, place_natCast reached, Bool.false_eq_true,
    if_false]
  unfold linked
  rw [mutable]
  rfl

theorem connect_eq {g : Network} {source target : Nat} (mutable : g.frozen = false)
    (known : source < g.size) (reached : target < g.size) (passage : Passage) :
    g.connect source target passage = .ok (g.linked source target passage) := by
  unfold connect
  rw [addEdge_linked mutable known reached]

theorem connect_spec {g : Network} {source target : Nat} (growing : g.Growing)
    (known : source < g.size) (reached : target < g.size) (passage : Passage) :
    ∃ h, g.connect source target passage = .ok h ∧ g.Grown [] [⟨source, target, passage⟩] h :=
  ⟨_, connect_eq growing.mutable known reached passage,
    ⟨growing.indexed.linked known reached passage, growing.mutable⟩,
    (nodes_linked ..).trans (List.append_nil _).symm, Array.toList_push ..⟩

end RouteVolume.Network
