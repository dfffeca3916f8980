import Mathlib.Data.List.Nodup
import RouteVolume.Proofs.Network.Adjacency

namespace RouteVolume.Network

/-- Networks made from the empty one by adding nodes, and edges whose ends are there. -/
inductive Assembled : Network → Prop
  | empty : Assembled .empty
  | node {g h : Network} (node : Node) {number : Nat} (before : Assembled g)
      (added : g.addNode node = .ok (h, number)) : Assembled h
  | edge {g h : Network} (edge : Edge) {stored : Edge} (before : Assembled g)
      (added : g.addEdge edge = (h, .ok stored)) : Assembled h

/-- A stored edge is among those that leave a node. -/
def Leaves (g : Network) (k : Int) (e : Nat) (edge : Edge) : Prop :=
  g.edges[e]? = some edge ∧ ∃ s, g.slot k = .ok s ∧ e ∈ s.leaving

structure Listed (g : Network) : Prop where
  nodup : ∀ (j : Nat) (s : Slot), g.slots[j]? = some s → s.leaving.Nodup
  inUse : ∀ (j : Nat) (s : Slot), g.slots[j]? = some s → ∀ e ∈ s.leaving, e < g.edges.size
  inside : ∀ edge ∈ g.edges, edge.source < g.size
  sources : ∀ (j : Nat) (s : Slot) (e : Nat) (edge : Edge), g.slots[j]? = some s →
    g.edges[e]? = some edge → 0 ≤ edge.source → (e ∈ s.leaving ↔ edge.source = j)

theorem addNode_inv {g h : Network} {node : Node} {number : Nat}
    (added : g.addNode node = .ok (h, number)) :
    h.slots = g.slots.push { node := node } ∧ h.edges = g.edges := by
  unfold addNode at added
  split at added
  · cases added
  · cases added
    exact ⟨rfl, rfl⟩

theorem slots_of_addEdge {g h : Network} {edge stored : Edge}
    (added : g.addEdge edge = (h, .ok stored)) :
    ∃ source target, place g.size edge.source = .ok source ∧
      place g.size edge.target = .ok target ∧ h.slots = g.linkSlots source target ∧
      h.edges = g.edges.push edge := by
  unfold addEdge at added
  split at added
  · cases added
  · split at added
    · cases added
    · rename_i source from_
      dsimp only at added
      split at added
      · cases added
      · rename_i target into
        cases added
        exact ⟨source, target, from_, into, rfl, rfl⟩

theorem addEdge_inv {g h : Network} {edge stored : Edge}
    (added : g.addEdge edge = (h, .ok stored)) :
    ∃ source, place g.size edge.source = .ok source ∧ h.size = g.size ∧
      h.edges = g.edges.push edge ∧ ∀ (j : Nat) (s : Slot), h.slots[j]? = some s →
        ∃ old, g.slots[j]? = some old ∧
          s.leaving = old.leaving ++ if source = j then [g.edges.size] else [] := by
  obtain ⟨source, target, from_, _, slots, edges⟩ := slots_of_addEdge added
  refine ⟨source, from_, ?_, edges, fun j s there => ?_⟩
  · rw [size, slots, linkSlots, Array.size_modify, Array.size_modify, size]
  · rw [slots, getElem?_linkSlots] at there
    obtain ⟨old, earlier, rfl⟩ := Option.map_eq_some_iff.mp there
    exact ⟨old, earlier, rfl⟩

namespace Listed

theorem empty : Network.empty.Listed := by
  have bare (j : Nat) (s : Slot) (there : Network.empty.slots[j]? = some s) : s.leaving = [] := by
    have mem := Array.mem_of_getElem? there
    simp only [Network.empty, List.mem_toArray, List.mem_cons, List.not_mem_nil, or_false] at mem
    rcases mem with rfl | rfl | rfl <;> rfl
  refine ⟨fun j s there => ?_, fun j s there e within => ?_, fun edge mem => ?_,
    fun j s e edge _ stored => ?_⟩
  · rw [bare j s there]
    exact List.nodup_nil
  · rw [bare j s there] at within
    cases within
  · exact absurd mem (Array.not_mem_empty edge)
  · cases stored

theorem addNode {g h : Network} (listed : g.Listed) {node : Node} {number : Nat}
    (added : g.addNode node = .ok (h, number)) : h.Listed := by
  obtain ⟨slots, edges⟩ := addNode_inv added
  have cases_ (j : Nat) (s : Slot) (there : h.slots[j]? = some s) :
      g.slots[j]? = some s ∨ j = g.slots.size ∧ s.leaving = [] := by
    rw [slots, Array.getElem?_push] at there
    split at there
    · rename_i last
      cases there
      exact .inr ⟨last, rfl⟩
    · exact .inl there
  refine ⟨fun j s there => ?_, fun j s there e within => ?_, fun edge mem => ?_, ?_⟩
  · rcases cases_ j s there with old | ⟨_, none⟩
    · exact listed.nodup j s old
    · rw [none]
      exact List.nodup_nil
  · rw [edges]
    rcases cases_ j s there with old | ⟨_, none⟩
    · exact listed.inUse j s old e within
    · rw [none] at within
      cases within
  · rw [edges] at mem
    have bound := listed.inside edge mem
    unfold size at bound ⊢
    rw [slots, Array.size_push]
    omega
  · intro j s e edge there stored positive
    rw [edges] at stored
    rcases cases_ j s there with old | ⟨last, none⟩
    · exact listed.sources j s e edge old stored positive
    · have bound := listed.inside edge (Array.mem_of_getElem? stored)
      unfold size at bound
      simp only [none, List.not_mem_nil, false_iff]
      omega

theorem addEdge {g h : Network} (listed : g.Listed) {edge stored : Edge}
    (added : g.addEdge edge = (h, .ok stored)) : h.Listed := by
  obtain ⟨source, from_, size, edges, before⟩ := addEdge_inv added
  have fresh {j : Nat} {s : Slot} (there : g.slots[j]? = some s) : g.edges.size ∉ s.leaving :=
    fun mem => Nat.lt_irrefl _ (listed.inUse j s there _ mem)
  refine ⟨fun j s there => ?_, fun j s there e within => ?_, fun other mem => ?_, ?_⟩
  · obtain ⟨old, earlier, leaving⟩ := before j s there
    rw [leaving, List.nodup_append]
    refine ⟨listed.nodup j old earlier, by split <;> simp, fun e inside d last same => ?_⟩
    subst same
    split at last
    · exact fresh earlier (List.mem_singleton.mp last ▸ inside)
    · cases last
  · obtain ⟨old, earlier, leaving⟩ := before j s there
    rw [edges, Array.size_push]
    rw [leaving, List.mem_append] at within
    rcases within with inside | last
    · exact Nat.lt_succ_of_lt (listed.inUse j old earlier e inside)
    · split at last
      · rw [List.mem_singleton.mp last]
        exact Nat.lt_succ_self _
      · cases last
  · rw [size]
    rw [edges, Array.mem_push] at mem
    rcases mem with old | rfl
    · exact listed.inside other old
    · exact (bounds_of_place from_).2
  · intro j s e other there found positive
    obtain ⟨old, earlier, leaving⟩ := before j s there
    rw [edges, Array.getElem?_push] at found
    rw [leaving, List.mem_append]
    split at found
    · rename_i last
      subst last
      obtain rfl := Option.some.inj found
      -- The new edge is listed at its source only, as its number was not in use before.
      have given : edge.source = source := by
        have := place_eq_ok_iff.mp from_
        omega
      rw [given, Int.natCast_inj]
      by_cases here : source = j <;> simp [here, fresh earlier]
    · rename_i other_
      rw [← listed.sources j old e other earlier found positive]
      by_cases here : source = j <;> simp [here, other_]

theorem leaves_iff {g : Network} (listed : g.Listed) {k e : Nat} {edge : Edge}
    (positive : 0 ≤ edge.source) :
    g.Leaves k e edge ↔ g.edges[e]? = some edge ∧ edge.source = k := by
  refine and_congr_right fun stored => ?_
  constructor
  · intro ⟨s, there, within⟩
    obtain ⟨j, placed, found⟩ := slot_eq_ok_iff.mp there
    have bounds := place_eq_ok_iff.mp placed
    rw [(listed.sources j s e edge found stored positive).mp within]
    omega
  · intro source
    have bound := listed.inside edge (Array.mem_of_getElem? stored)
    have known : k < g.size := by omega
    have there : g.slots[k]? = some g.slots[k] := Array.getElem?_eq_getElem known
    exact ⟨_, slot_natCast there, (listed.sources k _ e edge there stored positive).mpr source⟩

theorem nodup_leaving {g : Network} (listed : g.Listed) {k : Int} {s : Slot}
    (there : g.slot k = .ok s) : s.leaving.Nodup := by
  obtain ⟨j, _, found⟩ := slot_eq_ok_iff.mp there
  exact listed.nodup j s found

end Listed

theorem Assembled.listed {g : Network} (assembled : g.Assembled) : g.Listed := by
  induction assembled with
  | empty => exact Listed.empty
  | node _ _ added ih => exact ih.addNode added
  | edge _ _ added ih => exact ih.addEdge added

end RouteVolume.Network
