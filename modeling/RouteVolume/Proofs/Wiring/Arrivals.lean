import RouteVolume.Proofs.Network.Failures
import RouteVolume.Proofs.RuleBook.Stages
import RouteVolume.Proofs.Wiring.Image

namespace RouteVolume

def Stage.kind : Stage → NodeKind
  | .rule _ _ => .condition
  | .accept => .accept
  | .reject => .reject

namespace Wiring

def nodeOf (book : RuleBook) : Stage → Nat
  | .rule name i => numberAt book name i
  | .accept => Network.accept
  | .reject => Network.reject

theorem target_eq_nodeOf (book : RuleBook) (d : Destination) :
    target (numberAt book) d = nodeOf book d.stage := by
  cases d <;> rfl

structure Wired (book : RuleBook) (settings : Settings) (wiring : Wiring) : Prop where
  keyed : book.Keyed
  ready : Ready book settings
  image : Image book settings wiring (numberAt book)
  indexed : wiring.network.Indexed

theorem wired_of_ofRuleBook {book : RuleBook} {settings : Settings} {wiring : Wiring}
    (keyed : book.Keyed) (made : ofRuleBook book settings = .ok wiring) :
    Wired book settings wiring :=
  ⟨keyed, ready_of_ofRuleBook made, image_of_ofRuleBook keyed made,
    (renders_of_ofRuleBook keyed made).laid.indexed⟩

namespace Wired

variable {book : RuleBook} {settings : Settings} {wiring : Wiring} {s t : Stage} {r : Rule}
  {passage : Passage}

theorem node_of_rule (wired : Wired book settings wiring) {name : String} {w : Workflow} {i : Nat}
    (found : book.get? name = some w) (rule : w.rules[i]? = some r) :
    wiring.network.nodes[numberAt book name i]? = some (.ofRule r name i) := by
  have named := wired.keyed.name_eq found
  subst named
  exact wired.image.node w (RuleBook.mem_workflows_of_get? found) i r rule

theorem node_of_end (wired : Wired book settings wiring) {k : Nat} (early : k < 3) :
    wiring.network.nodes[k]? = [Node.reject, .accept, .start][k]? := by
  rw [← wired.image.ends, List.getElem?_take_of_lt early]

theorem slot_start (wired : Wired book settings wiring) :
    ∃ slot, wiring.network.slots[Network.start]? = some slot ∧ slot.node = .start :=
  Network.exists_slot_of_node (wired.node_of_end (by decide))

theorem kind_of_nodeOf (wired : Wired book settings wiring) (holds : book.Holds s) :
    ∃ n, wiring.network.nodes[nodeOf book s]? = some n ∧ n.kind = s.kind := by
  cases s with
  | rule name i =>
    obtain ⟨w, found, within⟩ := holds
    exact ⟨_, wired.node_of_rule found (List.getElem?_eq_getElem within), rfl⟩
  | accept => exact ⟨_, wired.node_of_end (k := Network.accept) (by decide), rfl⟩
  | reject => exact ⟨_, wired.node_of_end (k := Network.reject) (by decide), rfl⟩

theorem nodeOf_ne_start (wired : Wired book settings wiring) (holds : book.Holds s) :
    nodeOf book s ≠ Network.start := by
  intro same
  obtain ⟨n, there, kind⟩ := wired.kind_of_nodeOf holds
  rw [same, wired.node_of_end (by decide)] at there
  cases there
  cases s <;> cases kind

theorem eq_of_nodeOf (wired : Wired book settings wiring) (left : book.Holds s)
    (right : book.Holds t) (same : nodeOf book s = nodeOf book t) : s = t := by
  obtain ⟨n, there, kind⟩ := wired.kind_of_nodeOf left
  obtain ⟨m, again, other⟩ := wired.kind_of_nodeOf right
  rw [same, again] at there
  cases there
  rw [kind] at other
  cases s <;> cases t <;> try cases other
  · rename_i name i next k
    have sites : (name, i) = (next, k) := wired.image.sites.injOn left right same
    cases sites
    rfl
  · rfl
  · rfl

theorem nodeOf_eq_iff (wired : Wired book settings wiring) (left : book.Holds s)
    (right : book.Holds t) : (nodeOf book s : Int) = nodeOf book t ↔ s = t :=
  ⟨fun same => wired.eq_of_nodeOf left right (Int.natCast_inj.mp same), fun same => by rw [same]⟩

theorem holds_target (wired : Wired book settings wiring)
    (branches : book.Branches s r passage t) : book.Holds t := by
  have resolved {w : Workflow} {name : String} (found : book.get? name = some w) {d : Destination}
      (listed : d ∈ w.destinations) : book.Holds d.stage := by
    have known := RuleBook.mem_workflows_of_get? found
    have resolves := wired.image.resolves w known d listed
    cases d with
    | accept | reject => trivial
    | workflow next =>
      obtain ⟨v, there⟩ := Option.isSome_iff_exists.mp resolves
      exact ⟨v, there, Nat.succ_pos _⟩
  cases branches with
  | pass found rule => exact resolved found (destination_mem (List.mem_of_getElem? rule))
  | next found rule more => exact ⟨_, found, more⟩
  | default found rule last =>
    exact resolved found (List.mem_append_right _ (List.mem_singleton_self _))

theorem into_of_branches (wired : Wired book settings wiring)
    (branches : book.Branches s r passage t) :
    wiring.network.into (nodeOf book s) passage = [⟨nodeOf book t, nodeOf book s, passage⟩] := by
  cases branches with
  | @pass name w i r found rule =>
    have named := wired.keyed.name_eq found
    subst named
    have known := RuleBook.mem_workflows_of_get? found
    rw [← target_eq_nodeOf]
    exact wired.image.pass w known i r rule
  | @next name w i r found rule more =>
    have named := wired.keyed.name_eq found
    subst named
    have known := RuleBook.mem_workflows_of_get? found
    have edges := wired.image.fail w known i (Nat.lt_of_succ_lt more)
    rw [onFail, if_pos more] at edges
    exact edges
  | @default name w i r found rule last =>
    have named := wired.keyed.name_eq found
    subst named
    have known := RuleBook.mem_workflows_of_get? found
    have edges := wired.image.fail w known i (List.getElem?_eq_some_iff.mp rule).1
    rw [onFail, if_neg (by omega), target_eq_nodeOf] at edges
    exact edges

theorem mem_edges_of_branches (wired : Wired book settings wiring)
    (branches : book.Branches s r passage t) :
    (⟨nodeOf book t, nodeOf book s, passage⟩ : Edge) ∈ wiring.network.edges := by
  have entering : (⟨nodeOf book t, nodeOf book s, passage⟩ : Edge) ∈
      wiring.network.into (nodeOf book s) passage := by
    rw [wired.into_of_branches branches]
    exact List.mem_singleton_self _
  exact Array.mem_toList_iff.mp (List.mem_of_mem_filter entering)

theorem edge_cases (wired : Wired book settings wiring) {e : Edge}
    (mem : e ∈ wiring.network.edges) :
    (∃ s r t, book.Branches s r e.passage t ∧
      e = ⟨nodeOf book t, nodeOf book s, e.passage⟩) ∨
    e = ⟨numberAt book settings.start 0, Network.start, .entry⟩ := by
  by_cases entry : e.passage = .entry
  · right
    have listed : e ∈ wiring.network.edges.toList.filter (fun e => e.passage = .entry) :=
      List.mem_filter.mpr ⟨Array.mem_toList_iff.mpr mem, decide_eq_true entry⟩
    rw [wired.image.entry] at listed
    exact List.mem_singleton.mp listed
  · left
    obtain ⟨⟨name, i⟩, ⟨w, found, within⟩, target⟩ := wired.image.others e mem entry
    obtain ⟨r, t, branches⟩ : ∃ r t, book.Branches (.rule name i) r e.passage t := by
      have rule := List.getElem?_eq_getElem within
      cases passage : e.passage with
      | pass => exact ⟨_, _, .pass found rule⟩
      | fail =>
        by_cases more : i + 1 < w.rules.length
        · exact ⟨_, _, .next found rule more⟩
        · exact ⟨_, _, .default found rule (Nat.le_antisymm within (Nat.le_of_not_lt more))⟩
      | entry => exact absurd passage entry
    refine ⟨_, r, t, branches, ?_⟩
    have listed : e ∈ wiring.network.into (nodeOf book (.rule name i)) e.passage :=
      List.mem_filter.mpr ⟨Array.mem_toList_iff.mpr mem, decide_eq_true ⟨target, rfl⟩⟩
    rw [wired.into_of_branches branches] at listed
    exact List.mem_singleton.mp listed

theorem branches_of_edge (wired : Wired book settings wiring) {e : Edge}
    (mem : e ∈ wiring.network.edges) (known : book.Holds s) (reached : book.Holds t)
    (source : e.source = nodeOf book t) (target : e.target = nodeOf book s) :
    ∃ r, book.Branches s r e.passage t := by
  rcases wired.edge_cases mem with ⟨u, r, v, branches, same⟩ | entry
  · rw [same, Int.natCast_inj] at source target
    obtain rfl := wired.eq_of_nodeOf branches.holds_source known target
    obtain rfl := wired.eq_of_nodeOf (wired.holds_target branches) reached source
    exact ⟨r, branches⟩
  · rw [entry, Int.natCast_inj] at target
    exact absurd target.symm (wired.nodeOf_ne_start known)

section Runs

variable {value : String → Int}

theorem slot_of_branches (wired : Wired book settings wiring) {name : String} {i : Nat}
    (branches : book.Branches (.rule name i) r passage t) :
    ∃ slot, wiring.network.slots[nodeOf book (.rule name i)]? = some slot ∧
      slot.node = .ofRule r name i := by
  obtain ⟨w, found, rule⟩ := branches.rule_eq rfl
  exact Network.exists_slot_of_node (wired.node_of_rule found rule)

theorem trail_cons (wired : Wired book settings wiring) {rest : List Nat}
    (step : book.Proceeds value s t)
    (further : wiring.network.Trail value (nodeOf book t) rest) :
    ∃ e, wiring.network.Trail value (nodeOf book s) (e :: rest) ∧
      wiring.network.stops (e :: rest) = (nodeOf book s : Int) :: wiring.network.stops rest := by
  obtain ⟨r, passage, branches, passed⟩ := step
  obtain ⟨e, stored⟩ := Array.mem_iff_getElem?.mp (wired.mem_edges_of_branches branches)
  obtain ⟨name, i, rfl⟩ := branches.exists_site
  obtain ⟨slot, there, node⟩ := wired.slot_of_branches branches
  refine ⟨e, ?_, Network.stops_cons stored rest⟩
  exact .along stored (Network.slot_natCast there) (node ▸ passed) further

theorem exists_trail (wired : Wired book settings wiring)
    (goesOn : Relation.ReflTransGen (book.Proceeds value) s .accept) :
    ∃ rest, wiring.network.Trail value (nodeOf book s) rest := by
  induction goesOn using Relation.ReflTransGen.head_induction_on with
  | refl => exact ⟨[], .arrived⟩
  | head step _ ih =>
    obtain ⟨rest, further⟩ := ih
    obtain ⟨e, longer, _⟩ := wired.trail_cons step further
    exact ⟨e :: rest, longer⟩

theorem trail_of_runs (wired : Wired book settings wiring)
    (comes : Relation.ReflTransGen (book.Proceeds value) s t)
    (goesOn : Relation.ReflTransGen (book.Proceeds value) t .accept) :
    ∃ rest, wiring.network.Trail value (nodeOf book s) rest ∧
      (nodeOf book t : Int) ∈ wiring.network.stops rest := by
  induction comes using Relation.ReflTransGen.head_induction_on with
  | refl =>
    obtain ⟨rest, trail⟩ := wired.exists_trail goesOn
    exact ⟨rest, trail, trail.mem_stops⟩
  | head step _ ih =>
    obtain ⟨rest, further, mem⟩ := ih
    obtain ⟨e, longer, stops⟩ := wired.trail_cons step further
    exact ⟨e :: rest, longer, stops ▸ List.mem_cons_of_mem _ mem⟩

theorem runs_of_trail (wired : Wired book settings wiring) {n : Int} {rest : List Nat}
    (trail : wiring.network.Trail value n rest) (holds : book.Holds s) (place : n = nodeOf book s) :
    Relation.ReflTransGen (book.Proceeds value) s .accept ∧
      ∀ t, book.Holds t → (nodeOf book t : Int) ∈ wiring.network.stops rest →
        Relation.ReflTransGen (book.Proceeds value) s t ∧
          Relation.ReflTransGen (book.Proceeds value) t .accept := by
  induction trail generalizing s with
  | arrived =>
    obtain rfl : s = .accept :=
      wired.eq_of_nodeOf holds trivial (Int.natCast_inj.mp place.symm)
    refine ⟨.refl, fun t known mem => ?_⟩
    obtain rfl : t = .accept :=
      wired.eq_of_nodeOf known trivial (Int.natCast_inj.mp (List.mem_singleton.mp mem))
    exact ⟨.refl, .refl⟩
  | along stored there lets further ih =>
    rcases wired.edge_cases (Array.mem_of_getElem? stored) with ⟨u, r, v, branches, same⟩ | entry
    · rw [same, Int.natCast_inj] at place
      obtain rfl := wired.eq_of_nodeOf branches.holds_source holds place
      obtain ⟨name, i, rfl⟩ := branches.exists_site
      obtain ⟨slot, located, node⟩ := wired.slot_of_branches branches
      rw [same, Network.slot_natCast located] at there
      cases there
      rw [node] at lets
      have step : book.Proceeds value (.rule name i) v := ⟨r, _, branches, lets⟩
      obtain ⟨ends, through⟩ := ih (wired.holds_target branches) (congrArg Edge.source same)
      refine ⟨.head step ends, fun t known mem => ?_⟩
      rw [Network.stops_cons stored, same] at mem
      rcases List.mem_cons.mp mem with here | later
      · obtain rfl := wired.eq_of_nodeOf known holds (Int.natCast_inj.mp here)
        exact ⟨.refl, .head step ends⟩
      · obtain ⟨comes, goesOn⟩ := through t known later
        exact ⟨.head step comes, goesOn⟩
    · rw [entry, Int.natCast_inj] at place
      exact absurd place.symm (wired.nodeOf_ne_start holds)

end Runs

theorem arrive_eq (wired : Wired book settings wiring) {name : String} {i : Nat}
    (branches : book.Branches (.rule name i) r passage t) {b : Branch}
    (place : b.node = nodeOf book (.rule name i)) (left : b.passage = passage)
    (attrs : b.box.attrs = settings.attrs) :
    ∃ narrowed edges, (Node.ofRule r name i).narrow b.box passage = .ok narrowed ∧
      wiring.network.edgesFrom b.node = .ok edges ∧
      wiring.network.arrive b =
        if b.node ∈ b.path then
          (Node.ofRule r name i).label >>= fun label => .error (.report (.cycle label))
        else if narrowed.isFeasible then .ok (.fork narrowed edges)
        else .ok (.pruned (.ofRule r name i) narrowed) := by
  obtain ⟨slot, stored, node⟩ := wired.slot_of_branches branches
  have there : wiring.network.slot b.node = .ok slot := place ▸ Network.slot_natCast stored
  have edges := wired.indexed.edgesFrom_eq (Array.getElem?_eq_some_iff.mp stored).1
  rw [← place] at edges
  obtain ⟨passed, outcome⟩ := branches.outcome
  obtain ⟨w, found, rule⟩ := branches.rule_eq rfl
  have attr : r.attr ∈ b.box.attrs := attrs ▸
    wired.ready.known w (RuleBook.mem_workflows_of_get? found) r (List.mem_of_getElem? rule)
  have notEntry : b.passage ≠ .entry := by
    intro entry
    rw [← left, entry] at outcome
    cases outcome
  obtain ⟨narrowed, part, arrives⟩ := Network.arrive_of_test there node attr notEntry edges
  rw [node] at part arrives
  exact ⟨narrowed, _, left ▸ part, edges, arrives⟩

end Wired

end Wiring

end RouteVolume
