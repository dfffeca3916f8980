import RouteVolume.Proofs.Network.Changes

namespace RouteVolume

theorem total_map_add {α : Type} (f g : α → Nat) (xs : List α) :
    total (xs.map fun x => f x + g x) = total (xs.map f) + total (xs.map g) := by
  induction xs with
  | nil => rfl
  | cons x rest ih =>
    simp only [List.map_cons, total_cons, ih]
    omega

theorem total_map_ite {n k : Nat} (within : k < n) :
    total ((List.range n).map fun j => if k = j then 1 else 0) = 1 := by
  induction n with
  | zero => cases within
  | succ n ih =>
    rw [List.range_succ, List.map_append, total_append]
    rcases Nat.lt_succ_iff_lt_or_eq.mp within with earlier | rfl
    · rw [ih earlier, List.map_singleton, if_neg (Nat.ne_of_lt earlier)]
      rfl
    · have before : (List.range k).map (fun j => if k = j then 1 else 0) = List.replicate k 0 := by
        refine List.eq_replicate_iff.mpr ⟨by simp, List.forall_mem_map.mpr fun j mem => ?_⟩
        exact if_neg (Nat.ne_of_gt (List.mem_range.mp mem))
      rw [before, total_replicate, List.map_singleton, if_pos rfl]
      rfl

theorem total_length_filter {α : Type} {n : Nat} {number : α → Int} {xs : List α}
    (within : ∀ x ∈ xs, 0 ≤ number x ∧ number x < n) :
    total ((List.range n).map fun (k : Nat) => (xs.filter fun x => number x = (k : Int)).length) =
      xs.length := by
  induction xs with
  | nil => simp [total_replicate]
  | cons x rest ih =>
    obtain ⟨⟨least, less⟩, others⟩ := List.forall_mem_cons.mp within
    obtain ⟨j, place⟩ := Int.eq_ofNat_of_zero_le least
    have split (k : Nat) : ((x :: rest).filter fun x => number x = (k : Int)).length =
        (rest.filter fun x => number x = (k : Int)).length + if j = k then 1 else 0 := by
      simp only [List.filter_cons, place, Int.natCast_inj, decide_eq_true_eq]
      by_cases here : j = k <;> simp [here]
    rw [List.map_congr_left fun k _ => split k, total_map_add, ih others, List.length_cons,
      total_map_ite (by omega)]

namespace Network

/-- Is the change one that adds no edge, or one between nodes that are there? -/
def Admits (g : Network) : Change → Prop
  | .edge edge => (0 ≤ edge.source ∧ edge.source < g.size) ∧ 0 ≤ edge.target ∧ edge.target < g.size
  | _ => True

/-- The second network comes of the first by admitted changes, be they carried out or refused. -/
def Becomes : Network → Network → Prop :=
  Relation.ReflTransGen fun g h => ∃ c, g.Admits c ∧ (g.change c).1 = h

theorem Indexed.freeze {g : Network} (indexed : g.Indexed) : g.freeze.Indexed :=
  ⟨indexed.leaving, indexed.entering, indexed.inside⟩

theorem addEdge_spec {g : Network} {edge : Edge} (growing : g.Growing)
    (admits : g.Admits (.edge edge)) :
    ∃ h, g.addEdge edge = (h, .ok edge) ∧ g.Grown [] [edge] h := by
  obtain ⟨source, target, passage⟩ := edge
  obtain ⟨⟨positive, known⟩, later, reached⟩ := admits
  obtain ⟨j, rfl⟩ := Int.eq_ofNat_of_zero_le positive
  obtain ⟨k, rfl⟩ := Int.eq_ofNat_of_zero_le later
  have from_ := Int.ofNat_lt.mp known
  have into := Int.ofNat_lt.mp reached
  exact ⟨_, addEdge_linked growing.mutable from_ into passage,
    ⟨growing.indexed.linked from_ into passage, growing.mutable⟩,
    (nodes_linked ..).trans (List.append_nil _).symm, Array.toList_push ..⟩

theorem change_cases {g : Network} {c : Change} (indexed : g.Indexed) (admits : g.Admits c) :
    (∃ nodes edges, g.Grown nodes edges (g.change c).1) ∨ (g.change c).1 = g.freeze ∨
      (g.change c).1 = g := by
  cases mutable : g.frozen with
  | true => exact .inr (.inr (change_of_frozen mutable c))
  | false =>
    cases c with
    | node node =>
      obtain ⟨h, added, grown⟩ := addNode_spec ⟨indexed, mutable⟩ node
      refine .inl ⟨[node], [], ?_⟩
      unfold change
      simp only [added]
      exact grown
    | edge edge =>
      obtain ⟨h, added, grown⟩ := addEdge_spec ⟨indexed, mutable⟩ admits
      exact .inl ⟨[], [edge], (change_edge added).symm ▸ grown⟩
    | freeze => exact .inr (.inl rfl)

namespace Becomes

variable {g h : Network}

theorem change (becomes : g.Becomes h) {c : Change} (admits : h.Admits c) :
    g.Becomes (h.change c).1 :=
  Relation.ReflTransGen.tail becomes ⟨c, admits, rfl⟩

theorem indexed (becomes : g.Becomes h) (indexed : g.Indexed) : h.Indexed := by
  induction becomes with
  | refl => exact indexed
  | tail _ step ih =>
    obtain ⟨c, admits, rfl⟩ := step
    rcases change_cases ih admits with ⟨_, _, grown⟩ | frozen | same
    · exact grown.growing.indexed
    · exact frozen ▸ ih.freeze
    · exact same.symm ▸ ih

theorem stored_prefix (becomes : g.Becomes h) (indexed : g.Indexed) :
    g.nodes <+: h.nodes ∧ g.edges.toList <+: h.edges.toList := by
  induction becomes with
  | refl => exact ⟨List.prefix_rfl, List.prefix_rfl⟩
  | tail before step ih =>
    obtain ⟨c, admits, rfl⟩ := step
    rcases change_cases (Becomes.indexed before indexed) admits with
      ⟨nodes, edges, grown⟩ | frozen | same
    · rw [grown.nodes_eq, grown.edges_eq]
      exact ⟨ih.1.trans (List.prefix_append _ _), ih.2.trans (List.prefix_append _ _)⟩
    · rw [frozen]
      exact ih
    · rw [same]
      exact ih

theorem eq_of_frozen (becomes : g.Becomes h) (frozen : g.frozen = true) : h = g := by
  induction becomes with
  | refl => rfl
  | tail _ step ih =>
    obtain ⟨c, _, rfl⟩ := step
    rw [ih, change_of_frozen frozen]

end Becomes

theorem Indexed.edgesInto_eq {g : Network} {k : Nat} (indexed : g.Indexed) (known : k < g.size) :
    g.edgesInto k = .ok (g.edges.toList.filter fun e => e.target = (k : Int)) := by
  have stored : g.slots[k]? = some g.slots[k] := Array.getElem?_eq_getElem known
  unfold edgesInto
  rw [slot_natCast stored]
  exact indexed.entering_eq stored

theorem length_numbersWhere (g : Network) (p : Edge → Bool) :
    (g.numbersWhere p).length = (g.edges.toList.filter p).length := by
  have length := congrArg List.length (g.map_numbersWhere p)
  rwa [List.length_map, List.length_map] at length

theorem Indexed.degrees_eq {g : Network} {k : Nat} (indexed : g.Indexed) (known : k < g.size) :
    g.degrees k = .ok ((g.edges.toList.filter fun e => e.source = (k : Int)).length,
      (g.edges.toList.filter fun e => e.target = (k : Int)).length) := by
  have stored : g.slots[k]? = some g.slots[k] := Array.getElem?_eq_getElem known
  unfold degrees
  rw [slot_natCast stored, ← length_numbersWhere, ← length_numbersWhere,
    ← indexed.leaving k _ stored, ← indexed.entering k _ stored]
  rfl

/-- A network made by admitted changes lists at each node the stored edges that leave and enter it,
in order, and counts each edge once at its source and once at its target. What it holds stays in its
place, and what is added comes behind it. Once it is frozen, every addition is reported and
nothing changes. -/
theorem index_agrees {g : Network} (made : empty.Becomes g) :
    (∀ k : Nat, k < g.size →
      g.edgesFrom k = .ok (g.edges.toList.filter fun e => e.source = (k : Int)) ∧
      g.edgesInto k = .ok (g.edges.toList.filter fun e => e.target = (k : Int)) ∧
      g.degrees k = .ok ((g.edges.toList.filter fun e => e.source = (k : Int)).length,
        (g.edges.toList.filter fun e => e.target = (k : Int)).length)) ∧
    total ((List.range g.size).map fun (k : Nat) =>
      (g.edges.toList.filter fun e => e.source = (k : Int)).length) = g.edges.size ∧
    total ((List.range g.size).map fun (k : Nat) =>
      (g.edges.toList.filter fun e => e.target = (k : Int)).length) = g.edges.size ∧
    (∀ h, g.Becomes h → g.nodes <+: h.nodes ∧ g.edges.toList <+: h.edges.toList) ∧
    (g.frozen = false →
      (∀ node, ∃ h, g.addNode node = .ok (h, g.size) ∧ h.nodes = g.nodes ++ [node] ∧
        h.edges = g.edges) ∧
      ∀ edge, g.Admits (.edge edge) → ∃ h, g.addEdge edge = (h, .ok edge) ∧ h.nodes = g.nodes ∧
        h.edges = g.edges.push edge) ∧
    ∀ h, g.freeze.Becomes h → h = g.freeze ∧ ∃ d, d.code.number = "RG-9002" ∧
      (∀ node, h.addNode node = .error (.report d)) ∧
      ∀ edge, h.addEdge edge = (h, .error (.report d)) := by
  have indexed := made.indexed Indexed.empty
  have inside (e : Edge) (mem : e ∈ g.edges.toList) := indexed.inside e (Array.mem_toList_iff.mp mem)
  refine ⟨fun k known => ?_, ?_, ?_, ?_, ?_, ?_⟩
  · exact ⟨indexed.edgesFrom_eq known, indexed.edgesInto_eq known, indexed.degrees_eq known⟩
  · exact total_length_filter fun e mem => (inside e mem).1
  · exact total_length_filter fun e mem => (inside e mem).2
  · exact fun h becomes => becomes.stored_prefix indexed
  · intro mutable
    constructor
    · intro node
      obtain ⟨h, added, grown⟩ := addNode_spec ⟨indexed, mutable⟩ node
      exact ⟨h, added, grown.nodes_eq, Array.toList_inj.mp (grown.edges_eq.trans (List.append_nil _))⟩
    · intro edge admits
      obtain ⟨h, added, grown⟩ := addEdge_spec ⟨indexed, mutable⟩ admits
      obtain ⟨_, _, _, pushed, _⟩ := addEdge_inv added
      exact ⟨h, added, grown.nodes_eq.trans (List.append_nil _), pushed⟩
  · intro h becomes
    obtain rfl := becomes.eq_of_frozen rfl
    exact ⟨rfl, .frozen, rfl, addNode_of_frozen rfl, addEdge_of_frozen rfl⟩

theorem index_agrees_at_loop :
    ∃ g, empty.Becomes g ∧ g.frozen = true ∧
      g.edgesFrom 3 = .ok [⟨3, 3, .fail⟩, ⟨3, 2, .entry⟩] ∧
      g.edgesInto 3 = .ok [⟨1, 3, .pass⟩, ⟨3, 3, .fail⟩] ∧ g.degrees 3 = .ok (2, 2) := by
  have noded : empty.Becomes _ := Becomes.change .refl (c := .node .blank) trivial
  have entered := noded.change (c := .edge ⟨1, 3, .pass⟩) ⟨by decide, by decide⟩
  have looped := entered.change (c := .edge ⟨3, 3, .fail⟩) ⟨by decide, by decide⟩
  have left := looped.change (c := .edge ⟨3, 2, .entry⟩) ⟨by decide, by decide⟩
  have made := left.change (c := .freeze) trivial
  exact ⟨_, made, rfl, (index_agrees made).1 3 (by decide)⟩

end Network

end RouteVolume
