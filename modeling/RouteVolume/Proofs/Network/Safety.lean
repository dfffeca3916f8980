import RouteVolume.Proofs.Network.Failures
import RouteVolume.Proofs.Network.Order
import RouteVolume.Proofs.Network.Validity

namespace RouteVolume

/-- Does a condition test a known attribute, with a threshold that can be written? -/
def Node.Testable (s : Settings) : Node → Prop
  | .condition attr t _ _ => attr ∈ s.attrs ∧ t.value.natAbs < Numeral.bound
  | .blank => False
  | _ => True

namespace Network

/-- Networks made from the empty one by adding nodes, and edges whose ends are there. The target of
an edge is counted from the back only when the nodes are complete: while nodes are still added, such
a number means a different node each time. -/
inductive Aimed (complete : Nat) : Network → Prop
  | empty : Aimed complete .empty
  | node {g h : Network} (node : Node) {number : Nat} (before : Aimed complete g)
      (added : g.addNode node = .ok (h, number)) : Aimed complete h
  | edge {g h : Network} (edge : Edge) {stored : Edge} (before : Aimed complete g)
      (settled : 0 ≤ edge.target ∨ g.size = complete)
      (added : g.addEdge edge = (h, .ok stored)) : Aimed complete h

theorem Aimed.assembled {complete : Nat} {g : Network} (aimed : g.Aimed complete) :
    g.Assembled := by
  induction aimed with
  | empty => exact .empty
  | node node _ added ih => exact .node node ih added
  | edge edge _ _ added ih => exact .edge edge ih added

def Entered (complete : Nat) (g : Network) : Prop :=
  ∀ (e : Nat) (edge : Edge), g.edges[e]? = some edge →
    ∃ (j : Nat) (s : Slot), g.slots[j]? = some s ∧ fromFront complete edge.target = j ∧
      e ∈ s.entering

namespace Entered

theorem empty (complete : Nat) : Network.empty.Entered complete :=
  fun _ _ stored => nomatch stored

theorem addNode {complete : Nat} {g h : Network} {node : Node} {number : Nat}
    (entered : g.Entered complete) (added : g.addNode node = .ok (h, number)) :
    h.Entered complete := by
  obtain ⟨slots, edges⟩ := addNode_inv added
  intro e edge stored
  rw [edges] at stored
  obtain ⟨j, s, there, target, within⟩ := entered e edge stored
  have earlier := (Array.getElem?_eq_some_iff.mp there).1
  refine ⟨j, s, ?_, target, within⟩
  rw [slots, Array.getElem?_push_lt earlier, ← Array.getElem?_eq_getElem earlier]
  exact there

theorem addEdge {complete : Nat} {g h : Network} {edge stored : Edge}
    (entered : g.Entered complete) (meant : 0 ≤ edge.target ∨ g.size = complete)
    (added : g.addEdge edge = (h, .ok stored)) : h.Entered complete := by
  obtain ⟨source, target, _, into, slots, edges⟩ := slots_of_addEdge added
  intro e other found
  rw [edges, Array.getElem?_push] at found
  split at found
  · rename_i last
    obtain rfl := Option.some.inj found
    have bounds := place_eq_ok_iff.mp into
    obtain ⟨s, there⟩ : ∃ s, g.slots[target]? = some s :=
      ⟨_, Array.getElem?_eq_getElem (show target < g.slots.size from bounds.1)⟩
    refine ⟨target, _, by rw [slots, getElem?_linkSlots, there]; rfl, ?_, ?_⟩
    · unfold fromFront
      split <;> omega
    · simp [last]
  · obtain ⟨j, s, there, goal, within⟩ := entered e other found
    refine ⟨j, _, by rw [slots, getElem?_linkSlots, there]; rfl, goal, ?_⟩
    exact List.mem_append_left _ within

end Entered

theorem Aimed.entered {complete : Nat} {g : Network} (aimed : g.Aimed complete) :
    g.Entered complete := by
  induction aimed with
  | empty => exact Entered.empty complete
  | node _ _ added ih => exact ih.addNode added
  | edge _ _ meant added ih => exact ih.addEdge meant added

theorem mem_of_mapM_edge {g : Network} {numbers : List Nat} {edges : List Edge}
    (read : numbers.mapM g.edge = .ok edges) {e : Nat} {edge : Edge} (mem : e ∈ numbers)
    (stored : g.edges[e]? = some edge) : edge ∈ edges := by
  obtain ⟨other, inside, found⟩ := stored_of_mapM_edge read mem
  exact Option.some.inj (found.symm.trans stored) ▸ inside

theorem target_cases_of_valid {g : Network} (aimed : g.Aimed g.size) (valid : g.validate = .ok ())
    {e : Nat} {edge : Edge} (stored : g.edges[e]? = some edge) :
    ∃ s, g.slot edge.target = .ok s ∧ s.node ∈ g.nodes ∧
      (s.node.kind = .condition ∧ edge.passage ≠ .entry ∨ s.node = .start) := by
  obtain ⟨j, s, there, target, within⟩ := aimed.entered e edge stored
  obtain ⟨entering, read, fits⟩ := fits_of_validate valid there
  have mem := mem_of_mapM_edge read within stored
  have points : place g.size edge.target = .ok j := by
    have known : j < g.size := (Array.getElem?_eq_some_iff.mp there).1
    refine place_eq_ok_iff.mpr ⟨known, ?_⟩
    unfold fromFront at target
    split at target <;> omega
  refine ⟨s, slot_eq_ok_iff.mpr ⟨j, points, there⟩, ?_, ?_⟩
  · exact List.mem_map_of_mem (Array.mem_toList_iff.mpr (Array.mem_of_getElem? there))
  · unfold Slot.Fits at fits
    cases kind : s.node.kind with
    | condition =>
      rw [kind] at fits
      exact .inl ⟨rfl, of_decide_eq_false (by simpa using List.countP_eq_zero.mp fits.2.2 edge mem)⟩
    | start => exact .inr (Node.eq_start kind)
    | accept | reject =>
      rw [kind] at fits
      rw [fits] at within
      cases within

structure Along (g : Network) (s : Settings) (b : Branch) (e : Nat) (edge : Edge) : Prop where
  stored : g.edges[e]? = some edge
  node_eq : b.node = edge.target
  passage_eq : b.passage = edge.passage
  attrs_eq : b.box.attrs = s.attrs

theorem along_of_mem_visits {g : Network} {s : Settings} {v : Visit} (mem : v ∈ g.visits s) :
    ∃ e edge, g.Along s v.branch e edge := by
  refine visits_induction (motive := fun v => ∃ e edge, g.Along s v.branch e edge) ?_ ?_ v mem
  · intro v begins
    unfold launches at begins
    split at begins
    · cases begins
    · obtain ⟨e, _, edge, stored, rfl⟩ := mem_spread.mp begins
      exact ⟨e, edge, stored, rfl, rfl, rfl⟩
  · intro v child ⟨_, _, along⟩ onward
    obtain ⟨box, edges, slot, forked, _, spread⟩ := mem_children.mp onward
    obtain ⟨e, _, edge, stored, rfl⟩ := mem_spread.mp spread
    obtain ⟨_, _, arrived⟩ := arrived_of_arrive forked
    cases arrived with
    | fork _ _ _ narrowed _ _ =>
      exact ⟨e, edge, stored, rfl, rfl, (Node.narrow_spec narrowed).1.trans along.attrs_eq⟩

theorem Listed.edgesFrom_returns {g : Network} (listed : g.Listed) {k : Int} {s : Slot}
    (there : g.slot k = .ok s) : ∃ edges, g.edgesFrom k = .ok edges := by
  obtain ⟨j, _, stored⟩ := slot_eq_ok_iff.mp there
  have inUse (e : Nat) (mem : e ∈ s.leaving) : (g.edges[e]?).isSome := by
    rw [Array.getElem?_eq_getElem (listed.inUse j s stored e mem)]
    rfl
  exact ⟨_, edgesFrom_eq_ok_iff.mpr
    ⟨s, there, mapM_edge_eq_ok_iff.mpr (map_some_filterMap inUse)⟩⟩

/-- What keeps a walk from returning: a condition that it comes to again, or one whose position is
too long for a label. -/
inductive Stops (g : Network) : Fault → Prop
  | cycle {n : Node} {label : String} (mem : n ∈ g.nodes) (kind : n.kind = .condition)
      (labelled : n.label = .ok label) : Stops g (.report (.cycle label))
  | position {attr : String} {t : Threshold} {workflow : String} {position : Int}
      (mem : .condition attr t workflow position ∈ g.nodes)
      (long : Numeral.bound ≤ position.natAbs) : Stops g .longNumeral

theorem stops_of_failure {g : Network} {s : Settings} (aimed : g.Aimed g.size)
    (valid : g.validate = .ok ()) (testable : ∀ n ∈ g.nodes, n.Testable s) {v : Visit}
    (visited : v ∈ g.visits s) {fault : Fault} (failed : g.failure? v.branch = some fault) :
    g.Stops fault := by
  obtain ⟨e, edge, stored, node_eq, passage_eq, attrs⟩ := along_of_mem_visits visited
  obtain ⟨slot, there, known, ⟨kind, left⟩ | start⟩ := target_cases_of_valid aimed valid stored
  · rw [← node_eq] at there
    rw [← passage_eq] at left
    have tested := testable _ known
    cases node : slot.node with
    | condition attr t workflow position =>
      rw [node] at tested known
      obtain ⟨attr_known, short⟩ := tested
      obtain ⟨edges, listed⟩ := aimed.assembled.listed.edgesFrom_returns there
      obtain ⟨narrowed, _, arrives⟩ :=
        arrive_of_test there node (attrs ▸ attr_known) left listed
      rw [node] at arrives
      rcases fault_of_test arrives failed with ⟨label, labelled, rfl, _⟩ | ⟨unwritten, rfl⟩
      · exact .cycle known rfl labelled
      · refine .position known (Nat.le_of_not_lt fun shorter => ?_)
        obtain ⟨label, labelled⟩ := Node.label_of_lt short shorter
        rw [unwritten] at labelled
        cases labelled
    | blank =>
      rw [node] at tested
      cases tested
    | accept | reject | start =>
      rw [node] at kind
      cases kind
  · unfold failure? at failed
    rw [arrive_start (node_eq ▸ there) start] at failed
    cases failed

/-- A walk through a network that breaks no invariant, under settings with the attributes of all its
conditions, returns or reports a cycle at one of the conditions, unless the position in a label that
it has to write has more digits than can be written. -/
theorem valid_returns_or_cycle {g : Network} {s : Settings} (aimed : g.Aimed g.size)
    (valid : g.validate = .ok ()) (testable : ∀ n ∈ g.nodes, n.Testable s) :
    (∃ regions, (g.walk s).result = .ok regions) ∨
    (∃ n ∈ g.nodes, n.kind = .condition ∧ ∃ label, n.label = .ok label ∧
      (g.walk s).result = .error (.report (.cycle label))) ∨
    (∃ attr t workflow position, .condition attr t workflow position ∈ g.nodes ∧
      Numeral.bound ≤ position.natAbs ∧ (g.walk s).result = .error .longNumeral) := by
  have known : accept < g.size := Nat.lt_of_lt_of_le (by decide) (three_le_size aimed.assembled)
  obtain ⟨slot, there⟩ := slot_of_size known
  obtain ⟨edges, listed⟩ := aimed.assembled.listed.edgesFrom_returns there
  rw [result_walk listed]
  cases found : (g.visits s).findSome? fun v => g.failure? v.branch with
  | none => exact .inl ⟨_, rfl⟩
  | some fault =>
    obtain ⟨v, visited, failed⟩ := List.exists_of_findSome?_eq_some found
    cases stops_of_failure aimed valid testable visited failed with
    | cycle mem kind labelled => exact .inr (.inl ⟨_, mem, kind, _, labelled, rfl⟩)
    | position mem long => exact .inr (.inr ⟨_, _, _, _, mem, long, rfl⟩)

/-- A condition that leads to itself where it fails, and to two starts. -/
def looped : Network where
  slots := #[
    { node := .reject },
    { node := .accept, leaving := [0] },
    { node := .start, entering := [2] },
    { node := .condition "x" (.below 3) "in" 0, leaving := [1, 2, 3], entering := [0, 1] },
    { node := .start, entering := [3] }]
  edges := #[⟨1, 3, .pass⟩, ⟨3, 3, .fail⟩, ⟨3, 2, .entry⟩, ⟨-2, -1, .entry⟩]
  frozen := false

theorem aimed_looped : looped.Aimed looped.size := by
  have condition : Aimed 5 _ := .node (.condition "x" (.below 3) "in" 0) .empty rfl
  have passed := Aimed.edge ⟨1, 3, .pass⟩ (.node .start condition rfl) (.inl (by decide)) rfl
  have failed := Aimed.edge ⟨3, 3, .fail⟩ passed (.inl (by decide)) rfl
  exact .edge ⟨-2, -1, .entry⟩ (.edge ⟨3, 2, .entry⟩ failed (.inl (by decide)) rfl) (.inr rfl) rfl

theorem looped_reports_cycle : looped.validate = .ok () ∧
    ∃ label, (looped.walk line).result = .error (.report (.cycle label)) := by
  have valid : looped.validate = .ok () := rfl
  have nodes : looped.nodes =
      [.reject, .accept, .start, .condition "x" (.below 3) "in" 0, .start] := rfl
  have testable : ∀ n ∈ looped.nodes, n.Testable line := by
    simp only [nodes, List.forall_mem_cons, Node.Testable]
    exact ⟨trivial, trivial, trivial, ⟨by decide, Numeral.lt_bound (by decide)⟩, trivial, nofun⟩
  have stopped : (looped.walk line).fault? ≠ none := by decide +kernel
  refine ⟨valid, ?_⟩
  rcases valid_returns_or_cycle aimed_looped valid testable with
    ⟨regions, returns⟩ | ⟨_, _, _, label, _, reported⟩ | ⟨_, _, _, position, mem, long, _⟩
  · unfold Walk.result at returns
    split at returns
    · rename_i running
      exact absurd running stopped
    · cases returns
  · exact ⟨label, reported⟩
  · obtain ⟨_, _, _, rfl⟩ : _ ∧ _ ∧ _ ∧ position = 0 := by simpa [nodes] using mem
    exact absurd long (Nat.not_le_of_lt (Numeral.lt_bound (by decide)))

/-- An edge enters the start, which is the last node when it is added, by a number that means Accept
afterwards. -/
def astray : Network where
  slots := #[
    { node := .reject },
    { node := .accept, leaving := [0] },
    { node := .start, entering := [0] },
    { node := .accept }]
  edges := #[⟨1, -1, .entry⟩]
  frozen := false

/-- A condition that leads to itself where it fails, with the least position that is too long to be
written. -/
def remote : Network where
  slots := #[
    { node := .reject },
    { node := .accept, leaving := [0] },
    { node := .start, entering := [2] },
    { node := .condition "x" (.below 3) "in" Numeral.bound, leaving := [1, 2], entering := [0, 1] }]
  edges := #[⟨1, 3, .pass⟩, ⟨3, 3, .fail⟩, ⟨3, 2, .entry⟩]
  frozen := false

theorem aimed_remote : remote.Aimed remote.size := by
  have tested : Aimed 4 _ := .node (.condition "x" (.below 3) "in" Numeral.bound) .empty rfl
  have passed := Aimed.edge ⟨1, 3, .pass⟩ tested (.inl (by decide)) rfl
  have failed := Aimed.edge ⟨3, 3, .fail⟩ passed (.inl (by decide)) rfl
  exact .edge ⟨3, 2, .entry⟩ failed (.inl (by decide)) rfl

theorem testable_remote : ∀ n ∈ remote.nodes, n.Testable line := by
  have nodes : remote.nodes =
      [.reject, .accept, .start, .condition "x" (.below 3) "in" Numeral.bound] := rfl
  simp only [nodes, List.forall_mem_cons, Node.Testable]
  exact ⟨trivial, trivial, trivial, ⟨by decide, Numeral.lt_bound (by decide)⟩, nofun⟩

/-- Two networks that break no invariant, through which a walk neither returns nor reports a cycle:
it reaches Accept again in one, and cannot write the label of the cycle in the other. -/
theorem valid_neither_returns_nor_cycle :
    (astray.Assembled ∧ astray.validate = .ok () ∧ (∀ n ∈ astray.nodes, n.Testable line) ∧
      (astray.walk line).result =
        .error (.report (.brokenInvariant "backward walk reached Accept mid-path"))) ∧
    (remote.Aimed remote.size ∧ remote.validate = .ok () ∧ (∀ n ∈ remote.nodes, n.Testable line) ∧
      (remote.walk line).result = .error .longNumeral) := by
  have assembled : astray.Assembled := .node .accept (.edge ⟨1, -1, .entry⟩ .empty rfl) rfl
  have ends : astray.nodes = [.reject, .accept, .start, .accept] := rfl
  refine ⟨⟨assembled, rfl, ?_, by decide +kernel⟩,
    aimed_remote, rfl, testable_remote, by decide +kernel⟩
  simp [ends, Node.Testable]

end Network

end RouteVolume
