import Mathlib.Logic.Relation
import RouteVolume.Proofs.Network.Assembly

namespace RouteVolume.Network

/-- Something to be done to a network. -/
inductive Change where
  | node (node : Node)
  | edge (edge : Edge)
  | freeze
  deriving DecidableEq, Repr

/-- The network after a change, and why the change was refused if it was. -/
def change (g : Network) : Change → Network × Option Fault
  | .node node =>
    match g.addNode node with
    | .ok (h, _) => (h, none)
    | .error fault => (g, some fault)
  | .edge edge =>
    match g.addEdge edge with
    | (h, .ok _) => (h, none)
    | (h, .error fault) => (h, some fault)
  | .freeze => (g.freeze, none)

def Knows (g : Network) (k : Int) : Prop := -(g.size : Int) ≤ k ∧ k < g.size

instance (g : Network) (k : Int) : Decidable (g.Knows k) :=
  inferInstanceAs (Decidable (_ ∧ _))

theorem knows_iff {g : Network} {k : Int} : g.Knows k ↔ ∃ j, place g.size k = .ok j := by
  constructor
  · intro ⟨least, greatest⟩
    refine ⟨(if k < 0 then k + g.size else k).toNat, place_eq_ok_iff.mpr ?_⟩
    split <;> omega
  · intro ⟨_, points⟩
    exact bounds_of_place points

section Refused

variable {g : Network}

theorem addNode_of_frozen (frozen : g.frozen = true) (node : Node) :
    g.addNode node = .error (.report .frozen) :=
  if_pos frozen

theorem addEdge_of_frozen (frozen : g.frozen = true) (edge : Edge) :
    g.addEdge edge = (g, .error (.report .frozen)) :=
  if_pos frozen

theorem change_edge {edge : Edge} {h : Network} {outcome : Except Fault Edge}
    (added : g.addEdge edge = (h, outcome)) : (g.change (.edge edge)).1 = h := by
  unfold change
  simp only [added]
  cases outcome <;> rfl

theorem change_of_frozen (frozen : g.frozen = true) (c : Change) : (g.change c).1 = g := by
  cases c with
  | node node => rw [change, addNode_of_frozen frozen]
  | edge edge => exact change_edge (addEdge_of_frozen frozen edge)
  | freeze =>
    obtain ⟨slots, edges, _⟩ := g
    cases frozen
    rfl

def strewn (g : Network) (source : Nat) : Network :=
  { g with slots := g.slots.modify source fun s => { s with leaving := s.leaving ++ [g.edges.size] } }

/-- Is the change an edge whose source is there and whose target is not? -/
def Dangles (g : Network) : Change → Prop
  | .edge edge => g.frozen = false ∧ g.Knows edge.source ∧ ¬ g.Knows edge.target
  | _ => False

theorem addEdge_of_lost {edge : Edge} (mutable : g.frozen = false)
    (lost : ¬ (g.Knows edge.source ∧ g.Knows edge.target)) :
    (∃ fault, ¬ g.Knows edge.source ∧ g.addEdge edge = (g, .error fault)) ∨
      ∃ source fault, place g.size edge.source = .ok source ∧ ¬ g.Knows edge.target ∧
        g.addEdge edge = (g.strewn source, .error fault) := by
  unfold addEdge
  rw [if_neg (by simp [mutable])]
  cases from_ : place g.size edge.source with
  | error fault => exact .inl ⟨fault, by simp [knows_iff, from_], rfl⟩
  | ok source =>
    cases into : place g.size edge.target with
    | error fault => exact .inr ⟨source, fault, rfl, by simp [knows_iff, into], rfl⟩
    | ok target => exact absurd ⟨knows_iff.mpr ⟨source, from_⟩, knows_iff.mpr ⟨target, into⟩⟩ lost

theorem addEdge_of_known {edge : Edge} (mutable : g.frozen = false)
    (source : g.Knows edge.source) (target : g.Knows edge.target) :
    ∃ h, g.addEdge edge = (h, .ok edge) := by
  obtain ⟨j, from_⟩ := knows_iff.mp source
  obtain ⟨k, into⟩ := knows_iff.mp target
  unfold addEdge
  rw [if_neg (by simp [mutable]), from_]
  simp only [into]
  exact ⟨_, rfl⟩

theorem refused_cases {c : Change} {fault : Fault} (refused : (g.change c).2 = some fault) :
    (¬ g.Dangles c ∧ (g.change c).1 = g) ∨
      ∃ edge source, c = .edge edge ∧ g.Dangles c ∧ place g.size edge.source = .ok source ∧
        (g.change c).1 = g.strewn source := by
  cases frozen : g.frozen with
  | true =>
    refine .inl ⟨fun dangles => ?_, change_of_frozen frozen c⟩
    cases c with
    | edge edge =>
      rw [Dangles, frozen] at dangles
      cases dangles.1
    | node node => exact dangles
    | freeze => exact dangles
  | false =>
    cases c with
    | node node =>
      rw [change, addNode, if_neg (by simp [frozen])] at refused
      cases refused
    | freeze => cases refused
    | edge edge =>
      by_cases known : g.Knows edge.source ∧ g.Knows edge.target
      · obtain ⟨h, added⟩ := addEdge_of_known frozen known.1 known.2
        rw [change, added] at refused
        cases refused
      · rcases addEdge_of_lost frozen known with
          ⟨_, unknown, failed⟩ | ⟨source, _, from_, missing, failed⟩
        · exact .inl ⟨fun dangles => unknown dangles.2.1, change_edge failed⟩
        · exact .inr ⟨edge, source, rfl, ⟨frozen, knows_iff.mpr ⟨source, from_⟩, missing⟩, from_,
            change_edge failed⟩

end Refused

section Strewn

variable {g : Network}

theorem size_strewn (g : Network) (source : Nat) : (g.strewn source).size = g.size := by
  rw [size, strewn, Array.size_modify, size]

theorem getElem?_strewn (g : Network) (source k : Nat) :
    (g.strewn source).slots[k]? = g.slots[k]?.map fun s =>
      { s with leaving := s.leaving ++ if source = k then [g.edges.size] else [] } := by
  rw [strewn, Array.getElem?_modify]
  cases g.slots[k]? with
  | none => simp
  | some s => by_cases here : source = k <;> simp [here]

theorem nodes_strewn (g : Network) (source : Nat) : (g.strewn source).nodes = g.nodes := by
  apply List.ext_getElem?
  intro k
  rw [nodes, nodes, List.getElem?_map, List.getElem?_map, Array.getElem?_toList,
    Array.getElem?_toList, getElem?_strewn]
  cases g.slots[k]? <;> rfl

theorem slot_strewn_of_ne {source : Nat} {k : Int} (other : place g.size k ≠ .ok source) :
    (g.strewn source).slot k = g.slot k := by
  unfold slot
  rw [size_strewn]
  cases points : place g.size k with
  | error fault => rfl
  | ok j =>
    have apart : source ≠ j := fun same => other (same ▸ points)
    simp only [bind, Except.bind, getElem?_strewn, if_neg apart, List.append_nil]
    cases g.slots[j]? <;> rfl

theorem slot_strewn_self {source : Nat} {k : Int} (points : place g.size k = .ok source) :
    ∃ s, g.slot k = .ok s ∧
      (g.strewn source).slot k = .ok { s with leaving := s.leaving ++ [g.edges.size] } := by
  have known : source < g.slots.size := (place_eq_ok_iff.mp points).1
  have stored : g.slots[source]? = some g.slots[source] := Array.getElem?_eq_getElem known
  refine ⟨g.slots[source], slot_eq_ok_iff.mpr ⟨source, points, stored⟩, ?_⟩
  refine slot_eq_ok_iff.mpr ⟨source, by rw [size_strewn, points], ?_⟩
  rw [getElem?_strewn, stored, if_pos rfl]
  rfl

theorem fault_of_mapM_edge {numbers : List Nat} {fault : Fault}
    (failed : numbers.mapM g.edge = .error fault) : fault = .missingIndex := by
  induction numbers with
  | nil => cases failed
  | cons e rest ih =>
    rw [List.mapM_cons] at failed
    simp only [Network.edge, bind, Except.bind] at failed
    cases stored : g.edges[e]? with
    | none =>
      rw [stored] at failed
      exact (Except.error.inj failed).symm
    | some edge =>
      rw [stored] at failed
      cases more : rest.mapM g.edge with
      | error other =>
        simp only [more] at failed
        obtain rfl := Except.error.inj failed
        exact ih more
      | ok edges =>
        simp only [more] at failed
        cases failed

theorem mapM_edge_of_unused {numbers : List Nat} {e : Nat} (mem : e ∈ numbers)
    (unused : g.edges[e]? = none) : numbers.mapM g.edge = .error .missingIndex := by
  cases read : numbers.mapM g.edge with
  | error fault => rw [fault_of_mapM_edge read]
  | ok edges =>
    obtain ⟨_, _, found⟩ := stored_of_mapM_edge read mem
    rw [unused] at found
    cases found

theorem mapM_edge_push {h : Network} {edge : Edge} (pushed : h.edges = g.edges.push edge)
    {numbers : List Nat} {edges : List Edge} (read : numbers.mapM g.edge = .ok edges) :
    numbers.mapM h.edge = .ok edges := by
  rw [mapM_edge_eq_ok_iff, ← mapM_edge_eq_ok_iff.mp read]
  apply List.map_congr_left
  intro e mem
  obtain ⟨_, _, found⟩ := stored_of_mapM_edge read mem
  have within := (Array.getElem?_eq_some_iff.mp found).1
  rw [pushed, Array.getElem?_push_lt within, Array.getElem?_eq_getElem within]

/-- Do two networks have the same nodes and edges and answer alike about each node? -/
structure Agrees (g h : Network) : Prop where
  nodes : h.nodes = g.nodes
  edges : h.edges = g.edges
  degrees : ∀ k, h.degrees k = g.degrees k
  leaving : ∀ k, h.edgesFrom k = g.edgesFrom k
  entering : ∀ k, h.edgesInto k = g.edgesInto k

/-- What an edge that dangles leaves behind at its source `k`: one edge more is counted there, which
cannot be read. In its place appears the next edge that is stored, even if that has another source. -/
structure Littered (g h : Network) (k : Int) : Prop where
  nodes : h.nodes = g.nodes
  edges : h.edges = g.edges
  entering : ∀ i, h.edgesInto i = g.edgesInto i
  elsewhere : ∀ i, place g.size i ≠ place g.size k →
    h.degrees i = g.degrees i ∧ h.edgesFrom i = g.edgesFrom i
  counted : ∃ out into, g.degrees k = .ok (out, into) ∧ h.degrees k = .ok (out + 1, into)
  unreadable : h.edgesFrom k = .error .missingIndex
  misplaced : ∀ edges edge, g.edgesFrom k = .ok edges → g.Knows edge.source →
    g.Knows edge.target → place g.size edge.source ≠ place g.size k →
    ∃ after, h.addEdge edge = (after, .ok edge) ∧ after.edgesFrom k = .ok (edges ++ [edge])

theorem exists_addEdge_strewn {source : Nat} {k : Int} {edges : List Edge} {edge : Edge}
    (mutable : g.frozen = false) (points : place g.size k = .ok source)
    (listed : g.edgesFrom k = .ok edges) (known : g.Knows edge.source)
    (reached : g.Knows edge.target) (other : place g.size edge.source ≠ place g.size k) :
    ∃ after, (g.strewn source).addEdge edge = (after, .ok edge) ∧
      after.edgesFrom k = .ok (edges ++ [edge]) := by
  have knows (i : Int) : (g.strewn source).Knows i ↔ g.Knows i := by
    rw [Knows, Knows, size_strewn]
  obtain ⟨h, added⟩ := addEdge_of_known (g := g.strewn source) mutable
    ((knows _).mpr known) ((knows _).mpr reached)
  obtain ⟨from_, placed, size, pushed, leaving⟩ := addEdge_inv added
  rw [size_strewn] at placed size
  have within : source < h.slots.size := Nat.lt_of_lt_of_eq (place_eq_ok_iff.mp points).1 size.symm
  have stored : h.slots[source]? = some h.slots[source] := Array.getElem?_eq_getElem within
  obtain ⟨s, before, _⟩ := slot_strewn_self points
  obtain ⟨t, here, read⟩ := edgesFrom_eq_ok_iff.mp listed
  obtain rfl := Except.ok.inj (before.symm.trans here)
  -- The edge is listed at its own source; what stands here is the number left behind, now in use.
  have numbers : h.slots[source].leaving = s.leaving ++ [g.edges.size] := by
    have apart : from_ ≠ source := fun same => other (by rw [placed, points, same])
    obtain ⟨old, strewn, same⟩ := leaving source _ stored
    obtain ⟨j, there, found⟩ := slot_eq_ok_iff.mp before
    obtain rfl := Except.ok.inj (points.symm.trans there)
    rw [getElem?_strewn, found, if_pos rfl] at strewn
    rw [same, if_neg apart, List.append_nil, ← Option.some.inj strewn]
  have last : [g.edges.size].mapM h.edge = .ok [edge] := by
    rw [mapM_edge_eq_ok_iff, pushed]
    simp [strewn]
  refine ⟨h, added, edgesFrom_eq_ok_iff.mpr
    ⟨h.slots[source], slot_eq_ok_iff.mpr ⟨source, by rw [size, points], stored⟩, ?_⟩⟩
  rw [numbers, List.mapM_append, mapM_edge_push (g := g) pushed read]
  simp only [bind, Except.bind, last]
  rfl

theorem Littered.not_agrees {h : Network} {k : Int} (littered : g.Littered h k) :
    ¬ g.Agrees h := by
  intro agrees
  obtain ⟨out, into, before, after⟩ := littered.counted
  rw [agrees.degrees, before] at after
  simp at after

theorem littered_strewn {source : Nat} {k : Int} (mutable : g.frozen = false)
    (points : place g.size k = .ok source) : g.Littered (g.strewn source) k := by
  obtain ⟨s, before, after⟩ := slot_strewn_self points
  have unused : (g.strewn source).edges[g.edges.size]? = none := Array.getElem?_size
  refine ⟨nodes_strewn g source, rfl, fun i => ?_, fun i other => ?_, ?_, ?_, ?_⟩
  · unfold edgesInto
    by_cases here : place g.size i = .ok source
    · obtain ⟨t, old, new⟩ := slot_strewn_self here
      rw [old, new]
      rfl
    · rw [slot_strewn_of_ne here]
      rfl
  · rw [points] at other
    unfold degrees edgesFrom
    rw [slot_strewn_of_ne other]
    exact ⟨rfl, rfl⟩
  · refine ⟨s.leaving.length, s.entering.length, by rw [degrees, before]; rfl, ?_⟩
    rw [degrees, after]
    simp [Except.map]
  · unfold edgesFrom
    rw [after]
    exact mapM_edge_of_unused (List.mem_append_right _ List.mem_cons_self) unused
  · intro edges edge listed known reached other
    exact exists_addEdge_strewn mutable points listed known reached other

end Strewn

/-- A change that is refused leaves the network as it was, unless it is an edge whose source is there
and whose target is not; and then the network does not answer as before. -/
theorem refused_unchanged_iff {g : Network} {c : Change} {fault : Fault}
    (refused : (g.change c).2 = some fault) :
    (g.Agrees (g.change c).1 ↔ ¬ g.Dangles c) ∧ (¬ g.Dangles c → (g.change c).1 = g) ∧
    ∀ edge, c = .edge edge → g.Dangles c → g.Littered (g.change c).1 edge.source := by
  rcases refused_cases refused with ⟨fits, same⟩ | ⟨edge, source, rfl, dangles, points, same⟩
  · rw [same]
    refine ⟨iff_of_true ⟨rfl, rfl, fun _ => rfl, fun _ => rfl, fun _ => rfl⟩ fits, fun _ => rfl, ?_⟩
    exact fun _ _ dangles => absurd dangles fits
  · have littered := littered_strewn dangles.1 points
    rw [same]
    refine ⟨iff_of_false littered.not_agrees (not_not_intro dangles), absurd dangles, ?_⟩
    intro other is _
    cases is
    exact littered

theorem refused_at_empty :
    (empty.change (.edge ⟨9, 0, .pass⟩)).1 = empty ∧
    empty.Littered (empty.change (.edge ⟨0, 9, .pass⟩)).1 0 := by
  have sourceless : (empty.change (.edge ⟨9, 0, .pass⟩)).2 = some .missingIndex := rfl
  have targetless : (empty.change (.edge ⟨0, 9, .pass⟩)).2 = some .missingIndex := rfl
  have dangles : empty.Dangles (.edge ⟨0, 9, .pass⟩) := ⟨rfl, by decide, by decide⟩
  refine ⟨(refused_unchanged_iff sourceless).2.1 fun dangles => ?_,
    (refused_unchanged_iff targetless).2.2 _ rfl dangles⟩
  exact absurd dangles.2.1 (by decide)

/-- After an edge from Reject to a node that is not there, an edge is counted at Reject that cannot
be read, though none is stored. -/
theorem dangling_edge_counted :
    (empty.change (.edge ⟨0, 9, .pass⟩)).2 = some .missingIndex ∧
    empty.degrees 0 = .ok (0, 0) ∧ empty.edgesFrom 0 = .ok [] ∧
    (empty.change (.edge ⟨0, 9, .pass⟩)).1.degrees 0 = .ok (1, 0) ∧
    (empty.change (.edge ⟨0, 9, .pass⟩)).1.edgesFrom 0 = .error .missingIndex ∧
    (empty.change (.edge ⟨0, 9, .pass⟩)).1.edges = empty.edges ∧
    ¬ empty.Agrees (empty.change (.edge ⟨0, 9, .pass⟩)).1 := by
  refine ⟨rfl, rfl, rfl, rfl, rfl, rfl, fun agrees => ?_⟩
  have counted := agrees.degrees 0
  cases counted

end RouteVolume.Network
