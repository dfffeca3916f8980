import RouteVolume.Proofs.Network.Safety

namespace RouteVolume

/-- Is there a number in the label that has too many digits to be written? -/
def Node.Unwritable : Node → Prop
  | .condition _ t _ position =>
    Numeral.bound ≤ t.value.natAbs ∨ Numeral.bound ≤ position.natAbs
  | _ => False

theorem Node.unwritable_of_label {n : Node} {fault : Fault} (failed : n.label = .error fault) :
    n.Unwritable := by
  cases n with
  | condition attr t workflow position =>
    by_contra short
    obtain ⟨value, place⟩ := not_or.mp short
    obtain ⟨label, labelled⟩ : ∃ label, (Node.condition attr t workflow position).label = .ok label :=
      label_of_lt (Nat.lt_of_not_le value) (Nat.lt_of_not_le place)
    rw [labelled] at failed
    cases failed
  | blank | accept | reject | start => cases failed

/-- Is the first edge the second one with its ends counted from the front? -/
structure Edge.Reads (e stored : Edge) : Prop where
  passage : e.passage = stored.passage
  source : 0 ≤ stored.source → e.source = stored.source
  target : 0 ≤ stored.target → e.target = stored.target

namespace Network

/-- Networks made from the empty one by adding nodes, and edges whose ends are there, together with
these edges. An end that is counted from the back means the node that it points to when the edge is
added, and is given by the number of this node. -/
inductive Drawn : Network → List Edge → Prop
  | empty : Drawn .empty []
  | node {g h : Network} {edges : List Edge} (node : Node) {number : Nat} (before : Drawn g edges)
      (added : g.addNode node = .ok (h, number)) : Drawn h edges
  | edge {g h : Network} {edges : List Edge} (edge : Edge) {stored : Edge} (before : Drawn g edges)
      (added : g.addEdge edge = (h, .ok stored)) :
      Drawn h (edges ++ [edge.renumber (fromFront g.size)])

theorem fromFront_of_place {size j : Nat} {k : Int} (points : place size k = .ok j) :
    fromFront size k = j := by
  have := place_eq_ok_iff.mp points
  unfold fromFront
  split <;> omega

def redrawn (g : Network) (edges : List Edge) : Network := ⟨g.slots, edges.toArray, false⟩

def arrivals (edges : List Edge) (k : Nat) (p : Passage) : Nat :=
  edges.countP fun (e : Edge) => e.target = (k : Int) ∧ e.passage = p

/-- Do the edges suit a node? Each condition is entered once by passing and once by failing, no edge
enters an end, and the start is entered from entry rules and not left. -/
def Suits (edges : List Edge) (k : Nat) : Node → Prop
  | .condition .. | .blank =>
    arrivals edges k .pass = 1 ∧ arrivals edges k .fail = 1 ∧ arrivals edges k .entry = 0
  | .accept | .reject => ∀ e ∈ edges, e.target ≠ k
  | .start => (∀ e ∈ edges, e.source ≠ k) ∧ ∀ e ∈ edges, e.target = k → e.passage = .entry

instance (edges : List Edge) (k : Nat) : DecidablePred (Suits edges k)
  | .condition .. | .blank => inferInstanceAs (Decidable (_ ∧ _ ∧ _))
  | .accept | .reject => inferInstanceAs (Decidable (∀ e ∈ edges, e.target ≠ k))
  | .start => inferInstanceAs (Decidable ((∀ e ∈ edges, e.source ≠ k) ∧
      ∀ e ∈ edges, e.target = k → e.passage = .entry))

/-- What is reported of a node that the edges do not suit. -/
def complaint (edges : List Edge) (k : Nat) (label : String) : Node → String
  | .condition .. | .blank =>
    label ++ " has " ++ toString (arrivals edges k .pass) ++ " pass and " ++
      toString (arrivals edges k .fail) ++ " fail edges recorded"
  | .accept | .reject => label ++ " is the target of an edge"
  | .start =>
    if ∃ e ∈ edges, e.source = k then "Start is the source of an edge"
    else "Start is reached by a non-entry edge"

namespace Drawn

variable {g : Network} {edges : List Edge}

theorem reads (drawn : g.Drawn edges) : List.Forall₂ Edge.Reads edges g.edges.toList := by
  induction drawn with
  | empty => exact .nil
  | node _ _ added ih => rwa [(addNode_inv added).2]
  | edge edge _ added ih =>
    obtain ⟨_, _, _, _, _, stored⟩ := slots_of_addEdge added
    rw [stored, Array.toList_push]
    refine List.rel_append ih (.cons ⟨rfl, fun positive => ?_, fun positive => ?_⟩ .nil)
    · exact if_neg (Int.not_lt.mpr positive)
    · exact if_neg (Int.not_lt.mpr positive)

theorem map_passage (drawn : g.Drawn edges) :
    edges.map (·.passage) = g.edges.toList.map (·.passage) :=
  List.forall₂_eq_eq_eq ▸ List.forall₂_map_left_iff.mpr
    (List.forall₂_map_right_iff.mpr (drawn.reads.imp fun _ _ reads => reads.passage))

theorem growing (drawn : g.Drawn edges) : (g.redrawn edges).Growing := by
  induction drawn with
  | empty => exact ⟨Indexed.empty, rfl⟩
  | @node g h edges node _ _ added ih =>
    obtain ⟨slots, _⟩ := addNode_inv added
    obtain ⟨other, again, grown⟩ := addNode_spec ih node
    have same : other = h.redrawn edges := by
      unfold addNode at again
      rw [if_neg (by simp [ih.mutable])] at again
      rw [redrawn, slots]
      exact (Prod.mk.inj (Except.ok.inj again)).1.symm
    exact same ▸ grown.growing
  | @edge g h edges edge _ before added ih =>
    obtain ⟨source, target, from_, into, slots, _⟩ := slots_of_addEdge added
    have size : edges.length = g.edges.size := by
      have := before.reads.length_eq
      rwa [Array.length_toList] at this
    have linked := ih.indexed.linked (place_eq_ok_iff.mp from_).1 (place_eq_ok_iff.mp into).1
      edge.passage
    have same : (g.redrawn edges).linked source target edge.passage =
        h.redrawn (edges ++ [edge.renumber (fromFront g.size)]) := by
      unfold redrawn Network.linked linkSlots Edge.renumber
      rw [fromFront_of_place from_, fromFront_of_place into, slots, linkSlots, ← size]
      simp
    exact ⟨same ▸ linked, rfl⟩

section Slot

variable {k : Nat} {s : Slot} (drawn : g.Drawn edges) (there : g.slots[k]? = some s)

include drawn there

theorem entering_eq_nil_iff : s.entering = [] ↔ ∀ e ∈ edges, e.target ≠ k := by
  have listed := map_numbersWhere (g.redrawn edges) fun e => e.target = k
  rw [← drawn.growing.indexed.entering k s there] at listed
  rw [← List.map_eq_nil_iff, listed, List.map_eq_nil_iff, redrawn, List.filter_eq_nil_iff]
  simp only [decide_eq_true_eq]

theorem leaving_eq_nil_iff : s.leaving = [] ↔ ∀ e ∈ edges, e.source ≠ k := by
  have listed := map_numbersWhere (g.redrawn edges) fun e => e.source = k
  rw [← drawn.growing.indexed.leaving k s there] at listed
  rw [← List.map_eq_nil_iff, listed, List.map_eq_nil_iff, redrawn, List.filter_eq_nil_iff]
  simp only [decide_eq_true_eq]

theorem exists_entering : ∃ entering, s.entering.mapM g.edge = .ok entering ∧
    entering.map (·.passage) =
      (edges.filter fun (e : Edge) => e.target = (k : Int)).map (·.passage) := by
  have read := mapM_edge_eq_ok_iff.mp (drawn.growing.indexed.entering_eq there)
  have each (e : Nat) : (g.edges[e]?).map (·.passage) =
      ((g.redrawn edges).edges[e]?).map (·.passage) := by
    rw [← Array.getElem?_toList, ← Array.getElem?_toList, ← List.getElem?_map, ← List.getElem?_map,
      redrawn, List.toList_toArray, drawn.map_passage]
  have inUse (e : Nat) (mem : e ∈ s.entering) : (g.edges[e]?).isSome := by
    obtain ⟨edge, _, stored⟩ := List.mem_map.mp (read ▸ List.mem_map_of_mem mem)
    have same := each e
    rw [← stored] at same
    rw [← Option.isSome_map, same]
    rfl
  have listed := map_some_filterMap inUse
  refine ⟨_, mapM_edge_eq_ok_iff.mpr listed, ?_⟩
  apply List.map_injective_iff.mpr (Option.some_injective Passage)
  have brought := congrArg (List.map (Option.map fun e : Edge => e.passage)) read
  rw [List.map_map, List.map_map] at brought
  have passed := congrArg (List.map (Option.map fun e : Edge => e.passage)) listed
  rw [List.map_map, List.map_map] at passed
  rw [List.map_map, List.map_map]
  exact passed.symm.trans ((List.map_congr_left fun e _ => each e).trans brought)

end Slot

section Entering

variable {k : Nat} {s : Slot} {entering : List Edge} (drawn : g.Drawn edges)
  (there : g.slots[k]? = some s) (read : s.entering.mapM g.edge = .ok entering)
  (same : entering.map (·.passage) =
    (edges.filter fun (e : Edge) => e.target = (k : Int)).map (·.passage))

include same

theorem passages_eq (p : Passage) : passages entering p = arrivals edges k p := by
  have counted := congrArg (List.countP (· = p)) same
  rw [List.countP_map, List.countP_map, List.countP_filter] at counted
  refine counted.trans (List.countP_congr fun e _ => ?_)
  simp [and_comm]

theorem forall_entering_iff : (∀ e ∈ entering, e.passage = .entry) ↔
    ∀ e ∈ edges, e.target = k → e.passage = .entry := by
  have passed : (∀ p ∈ entering.map (·.passage), p = .entry) ↔
      ∀ p ∈ (edges.filter fun (e : Edge) => e.target = (k : Int)).map (·.passage), p = .entry := by
    rw [same]
  rw [List.forall_mem_map, List.forall_mem_map] at passed
  simpa [List.mem_filter] using passed

include drawn there

theorem fits_iff : s.Fits entering ↔ Suits edges k s.node := by
  have passed := passages_eq same
  have entries := forall_entering_iff same
  unfold Slot.Fits
  cases s.node with
  | condition attr t workflow position => simp only [Node.kind, Suits, passed]
  | blank => simp only [Node.kind, Suits, passed]
  | accept | reject => exact drawn.entering_eq_nil_iff there
  | start => exact and_congr (drawn.leaving_eq_nil_iff there) entries

include read

theorem checkSlot_of_not_suits (unsuited : ¬ Suits edges k s.node) :
    g.checkSlot s = s.node.label >>= fun label =>
      .error (.report (.brokenInvariant (complaint edges k label s.node))) := by
  have passed := passages_eq same
  have entries := forall_entering_iff same
  have entered := drawn.entering_eq_nil_iff there
  have left := drawn.leaving_eq_nil_iff there
  unfold checkSlot
  rw [read]
  cases node : s.node with
  | condition attr t workflow position =>
    rw [node] at unsuited
    simp only [Suits, bind, Except.bind, passed] at unsuited ⊢
    rw [if_pos (by simp only [Bool.or_eq_true, decide_eq_true_eq]; omega)]
    generalize (Node.condition attr t workflow position).label = label
    cases label <;> rfl
  | blank =>
    rw [node] at unsuited
    simp only [Suits, bind, Except.bind, passed] at unsuited ⊢
    rw [if_pos (by simp only [Bool.or_eq_true, decide_eq_true_eq]; omega)]
    rfl
  | accept | reject =>
    rw [node] at unsuited
    simp only [Suits, bind, Except.bind, ← entered] at unsuited ⊢
    rw [if_pos (by simpa using unsuited)]
    rfl
  | start =>
    rw [node] at unsuited
    simp only [Suits, bind, Except.bind, ← left, ← entries, Node.label, complaint] at unsuited ⊢
    by_cases empty : s.leaving = []
    · have unleft : ¬ ∃ e ∈ edges, e.source = k := by
        rintro ⟨e, mem, source⟩
        exact left.mp empty e mem source
      have other := not_and.mp unsuited empty
      rw [if_neg (by simpa using empty), if_pos (by simpa using other), if_neg unleft]
      rfl
    · have leaves : ∃ e ∈ edges, e.source = k := by simpa [left] using empty
      rw [if_pos (by simpa using empty), if_pos leaves]
      rfl

end Entering

theorem checkSlot_cases {k : Nat} {s : Slot} (drawn : g.Drawn edges)
    (there : g.slots[k]? = some s) :
    Suits edges k s.node ∧ g.checkSlot s = .ok () ∨
      ¬ Suits edges k s.node ∧ g.checkSlot s = s.node.label >>= fun label =>
        .error (.report (.brokenInvariant (complaint edges k label s.node))) := by
  obtain ⟨entering, read, same⟩ := drawn.exists_entering there
  by_cases suited : Suits edges k s.node
  · exact .inl ⟨suited, checkSlot_eq_ok_iff.mpr
      ⟨entering, read, (drawn.fits_iff there same).mpr suited⟩⟩
  · exact .inr ⟨suited, drawn.checkSlot_of_not_suits there read same suited⟩

theorem checkSlot_eq_ok_iff_suits {k : Nat} {s : Slot} (drawn : g.Drawn edges)
    (there : g.slots[k]? = some s) : g.checkSlot s = .ok () ↔ Suits edges k s.node := by
  rcases drawn.checkSlot_cases there with ⟨suited, passes⟩ | ⟨unsuited, refused⟩
  · exact iff_of_true passes suited
  · refine iff_of_false (fun passes => ?_) unsuited
    rw [passes] at refused
    revert refused
    cases s.node.label <;> exact nofun

theorem validate_eq_ok_iff_suits (drawn : g.Drawn edges) : g.validate = .ok () ↔
    ∀ (k : Nat) (node : Node), g.nodes[k]? = some node → Suits edges k node := by
  unfold validate
  rw [forM_eq_ok_iff]
  constructor
  · intro passes k node there
    obtain ⟨s, stored, rfl⟩ := exists_slot_of_node there
    exact (drawn.checkSlot_eq_ok_iff_suits stored).mp
      (passes s (Array.mem_toList_iff.mpr (Array.mem_of_getElem? stored)))
  · intro suited s mem
    obtain ⟨k, stored⟩ := List.mem_iff_getElem?.mp mem
    rw [Array.getElem?_toList] at stored
    exact (drawn.checkSlot_eq_ok_iff_suits stored).mpr (suited k s.node (node_of_slot stored))

theorem first_unsuited (drawn : g.Drawn edges) {fault : Fault} (failed : g.validate = .error fault) :
    ∃ (k : Nat) (node : Node), g.nodes[k]? = some node ∧ ¬ Suits edges k node ∧
      (∀ j < k, ∀ other, g.nodes[j]? = some other → Suits edges j other) ∧
      (node.label >>= fun label =>
        .error (.report (.brokenInvariant (complaint edges k label node)))) =
          (.error fault : Except Fault Unit) := by
  obtain ⟨front, s, back, split, passed, stopped⟩ := split_of_forM_error failed
  have stored (j : Nat) : g.slots[j]? = (front ++ s :: back)[j]? := by
    rw [← split, Array.getElem?_toList]
  have here : g.slots[front.length]? = some s := by simp [stored]
  rcases drawn.checkSlot_cases here with ⟨_, passes⟩ | ⟨unsuited, refused⟩
  · rw [passes] at stopped
    cases stopped
  · refine ⟨front.length, s.node, node_of_slot here, unsuited, fun j before other there => ?_,
      refused.symm.trans stopped⟩
    obtain ⟨t, earlier, rfl⟩ := exists_slot_of_node there
    refine (drawn.checkSlot_eq_ok_iff_suits earlier).mp (passed t ?_)
    rw [stored, List.getElem?_append_left before] at earlier
    exact List.mem_of_getElem? earlier

end Drawn

/-- The check of the invariants passes exactly if the edges, their ends counted from the front, suit
every node. Else it reports what is wrong at the first node that they do not suit, or cannot write
the label of this node because of the length of a number. -/
theorem validate_decides {g : Network} {edges : List Edge} (drawn : g.Drawn edges) :
    List.Forall₂ Edge.Reads edges g.edges.toList ∧
    (g.validate = .ok () ↔
      ∀ (k : Nat) (node : Node), g.nodes[k]? = some node → Suits edges k node) ∧
    ((∃ (k : Nat) (node : Node), g.nodes[k]? = some node ∧ ¬ Suits edges k node) →
      ∃ (k : Nat) (node : Node), g.nodes[k]? = some node ∧ ¬ Suits edges k node ∧
        (∀ j < k, ∀ other, g.nodes[j]? = some other → Suits edges j other) ∧
        ((∃ label, node.label = .ok label ∧
            g.validate = .error (.report (.brokenInvariant (complaint edges k label node)))) ∨
          node.Unwritable ∧ g.validate = .error .longNumeral)) := by
  have decided := drawn.validate_eq_ok_iff_suits
  refine ⟨drawn.reads, decided, fun ⟨j, other, there, unsuited⟩ => ?_⟩
  cases outcome : g.validate with
  | ok _ => exact absurd (decided.mp outcome j other there) unsuited
  | error fault =>
    obtain ⟨k, node, here, unsuited, before, refused⟩ := drawn.first_unsuited outcome
    refine ⟨k, node, here, unsuited, before, ?_⟩
    cases labelled : node.label with
    | ok label =>
      rw [labelled] at refused
      exact .inl ⟨label, rfl, refused.symm⟩
    | error unwritten =>
      rw [labelled] at refused
      obtain rfl := Except.error.inj refused
      exact .inr ⟨Node.unwritable_of_label labelled, congrArg _ (Node.fault_of_label labelled)⟩

/-- Two starts, and two conditions that are not entered as they should be. The ends that are counted
from the back were given when the first of these conditions was the last node. -/
def lopsided : Network where
  slots := #[
    { node := .reject, leaving := [2] },
    { node := .accept, leaving := [0] },
    { node := .start },
    { node := .start, entering := [1] },
    { node := .blank, leaving := [1], entering := [0] },
    { node := .condition "x" (.below 3) "in" 0, entering := [2] }]
  edges := #[⟨1, -1, .pass⟩, ⟨-1, 3, .entry⟩, ⟨0, 5, .fail⟩]
  frozen := false

theorem drawn_lopsided : lopsided.Drawn [⟨1, 4, .pass⟩, ⟨4, 3, .entry⟩, ⟨0, 5, .fail⟩] := by
  have nodes := Drawn.node .blank (.node .start .empty rfl) rfl
  have entry := Drawn.edge ⟨-1, 3, .entry⟩ (.edge ⟨1, -1, .pass⟩ nodes rfl) rfl
  exact .edge ⟨0, 5, .fail⟩ (.node (.condition "x" (.below 3) "in" 0) entry rfl) rfl

theorem lopsided_decided : lopsided.Drawn [⟨1, 4, .pass⟩, ⟨4, 3, .entry⟩, ⟨0, 5, .fail⟩] ∧
    lopsided.validate = .error (.report
      (.brokenInvariant "None#None: NoneNone has 1 pass and 0 fail edges recorded")) := by
  obtain ⟨_, _, reported⟩ := validate_decides drawn_lopsided
  refine ⟨drawn_lopsided, ?_⟩
  obtain ⟨k, node, there, unsuited, before, report⟩ := reported ⟨5, _, rfl, by decide⟩
  have early : k ≤ 4 := Nat.le_of_not_lt fun beyond => absurd (before 4 beyond _ rfl) (by decide)
  obtain rfl | rfl | rfl | rfl | rfl : k = 0 ∨ k = 1 ∨ k = 2 ∨ k = 3 ∨ k = 4 := by omega
  · cases there
    exact absurd (by decide) unsuited
  · cases there
    exact absurd (by decide) unsuited
  · cases there
    exact absurd (by decide) unsuited
  · cases there
    exact absurd (by decide) unsuited
  · cases there
    rcases report with ⟨label, labelled, refused⟩ | ⟨long, _⟩
    · cases labelled
      exact refused
    · cases long

/-- A condition whose edges were given with its place counted from the back. -/
def counted : Network where
  slots := #[
    { node := .reject, leaving := [1] },
    { node := .accept, leaving := [0] },
    { node := .start, entering := [2] },
    { node := .condition "x" (.below 5) "in" 0, leaving := [2], entering := [0, 1] }]
  edges := #[⟨1, -1, .pass⟩, ⟨0, -1, .fail⟩, ⟨-1, 2, .entry⟩]
  frozen := false

theorem drawn_counted : counted.Drawn [⟨1, 3, .pass⟩, ⟨0, 3, .fail⟩, ⟨3, 2, .entry⟩] := by
  have tested := Drawn.node (.condition "x" (.below 5) "in" 0) .empty rfl
  have passed := Drawn.edge ⟨1, -1, .pass⟩ tested rfl
  have failed := Drawn.edge ⟨0, -1, .fail⟩ passed rfl
  exact .edge ⟨-1, 2, .entry⟩ failed rfl

/-- A condition that no edge enters, with the least threshold that is too long to be written. -/
def unlabelled : Network where
  slots := #[
    { node := .reject },
    { node := .accept },
    { node := .start },
    { node := .condition "x" (.below Numeral.bound) "in" 0 }]
  edges := #[]
  frozen := false

/-- Two nodes that are not suited and not reported. The stored edges of the first one do not have
its number, since they keep the ends that they were given with; the label of the second one cannot
be written. -/
theorem unsuited_unreported :
    (counted.Drawn [⟨1, 3, .pass⟩, ⟨0, 3, .fail⟩, ⟨3, 2, .entry⟩] ∧
      (∃ node, counted.nodes[3]? = some node ∧ ¬ Suits counted.edges.toList 3 node) ∧
      counted.validate = .ok ()) ∧
    (unlabelled.Drawn [] ∧
      (∃ node, unlabelled.nodes[3]? = some node ∧ ¬ Suits unlabelled.edges.toList 3 node) ∧
      unlabelled.validate = .error .longNumeral) := by
  refine ⟨⟨drawn_counted, ⟨_, rfl, by decide⟩, rfl⟩, .node _ .empty rfl, ⟨_, rfl, by decide⟩, ?_⟩
  -- The check comes to the label, and the label to a comparison of the threshold with the bound.
  decide +kernel

end Network

end RouteVolume
