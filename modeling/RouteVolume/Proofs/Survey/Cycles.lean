import RouteVolume.Proofs.Network.Failures
import RouteVolume.Proofs.Survey.Regions

namespace RouteVolume

/-- Can the numbers in the labels of a workflow's rules be written? Their positions can in every
list that fits into memory. -/
structure Workflow.Writable (w : Workflow) : Prop where
  thresholds : ∀ r ∈ w.rules, r.threshold.value.natAbs < Numeral.bound
  positions : w.rules.length ≤ Numeral.bound

theorem Workflow.Writable.label_eq {w : Workflow} (writable : w.Writable) {i : Nat} {r : Rule}
    (rule : w.rules[i]? = some r) (name : String) :
    ∃ label, (Node.ofRule r name i).label = .ok label := by
  have within := (List.getElem?_eq_some_iff.mp rule).1
  have position : (i : Int).natAbs < Numeral.bound := by
    have := writable.positions
    omega
  exact Node.label_of_lt (writable.thresholds r (List.mem_of_getElem? rule)) position

/-- Does a label belong to a rule of a workflow that routes to itself? -/
def RuleBook.Circles (book : RuleBook) (label : String) : Prop :=
  ∃ w ∈ book.workflows, ∃ (r : Rule) (position : Nat), w.rules[position]? = some r ∧
    (Node.ofRule r w.name position).label = .ok label ∧
    Relation.TransGen book.Routes w.name w.name

theorem Junction.outcome_of_mem_edges {j : Junction} {e : Edge} (own : e ∈ j.edges) :
    ∃ passed, e.passage.outcome? = some passed := by
  rw [edges, List.mem_pair] at own
  rcases own with rfl | rfl
  · exact ⟨true, rfl⟩
  · exact ⟨false, rfl⟩

theorem Junction.label_eq {j : Junction} {w : Workflow} (rule_eq : w.rules[j.position]? = some j.rule)
    (writable : w.Writable) : ∃ label, j.node.label = .ok label :=
  writable.label_eq rule_eq j.workflow

theorem Laid.junction_of_leads {g : Network} {js : List Junction} {first : Nat}
    (laid : Laid g js first) {k m n : Int} (enters : g.Leads k m)
    (leaves : Relation.TransGen g.Leads m n) : ∃ j ∈ js, m = j.number := by
  obtain ⟨edge, stored, _, rfl⟩ := enters
  obtain ⟨_, ⟨other, again, target, _⟩, _⟩ := Relation.TransGen.head'_iff.mp leaves
  rcases laid.target_cases again with ⟨j, mem, _, same⟩ | rfl
  · exact ⟨j, mem, target.symm.trans same⟩
  · exact absurd target.symm (laid.source_ne_start stored)

namespace Wiring.Renders

variable {book : RuleBook} {settings : Settings} {wiring : Wiring} {js : List Junction}

theorem source_cases (renders : Renders book settings wiring js) {j : Junction}
    (mem : j ∈ js) {m : Int} (leads : wiring.network.Leads j.number m) :
    (∃ w ∈ book.workflows, w.name = j.workflow ∧ ∃ d ∈ w.destinations, m = goal wiring.entries d) ∨
      ∃ k ∈ js, m = k.number ∧ k.workflow = j.workflow ∧ k.position = j.position + 1 := by
  obtain ⟨edge, stored, target, rfl⟩ := leads
  obtain ⟨w, known, number, own, part⟩ := renders.origin j mem
  have belongs := belongs_junctionsOf _ w number j own
  rcases renders.laid.target_cases stored with ⟨k, within, ofK, same⟩ | rfl
  · rw [target, Int.natCast_inj] at same
    obtain rfl := renders.laid.eq_of_number mem within same
    unfold Junction.edges at ofK
    rw [List.mem_pair] at ofK
    rcases ofK with rfl | rfl
    · obtain ⟨d, listed, passed⟩ := belongs.passed
      exact .inl ⟨w, known, belongs.named.symm, d, listed, congrArg Int.ofNat passed⟩
    · rcases belongs.failed with ⟨d, listed, failed⟩ | ⟨k, next, failed, named, position⟩
      · exact .inl ⟨w, known, belongs.named.symm, d, listed, congrArg Int.ofNat failed⟩
      · exact .inr ⟨k, part next, congrArg Int.ofNat failed, named.trans belongs.named.symm,
          position⟩
  · have late := renders.laid.number_ge mem
    rw [← Int.natCast_inj.mp target, Network.start] at late
    omega

theorem workflow_of_goal (renders : Renders book settings wiring js) (keyed : book.Keyed)
    {w : Workflow} (known : w ∈ book.workflows) {d : Destination} (listed : d ∈ w.destinations)
    {k : Junction} (mem : k ∈ js) (same : goal wiring.entries d = k.number) :
    book.Routes w.name k.workflow := by
  have late := renders.laid.number_ge mem
  cases d with
  | accept =>
    rw [← same, goal, Network.accept] at late
    omega
  | reject =>
    rw [← same, goal, Network.reject] at late
    omega
  | workflow name =>
    obtain ⟨v, found⟩ := Option.isSome_iff_exists.mp (renders.resolves w known _ listed)
    have stored := RuleBook.get?_eq_some_iff.mp found
    obtain ⟨number, part⟩ := renders.placed v (List.mem_map_of_mem stored)
    unfold junctionsOf at part
    have first := renders.laid.eq_of_number mem (List.cons_subset.mp part).1 (by
      rw [← same, opening, keyed.name_eq found])
    rw [first, opening, keyed.name_eq found]
    exact ⟨w, keyed.get?_name known, listed⟩

theorem step_cases (renders : Renders book settings wiring js) (keyed : book.Keyed) {j k : Junction}
    (inJ : j ∈ js) (inK : k ∈ js) (leads : wiring.network.Leads j.number k.number) :
    (k.workflow = j.workflow ∧ j.position < k.position) ∨ book.Routes j.workflow k.workflow := by
  -- From junction to junction, positions grow within a workflow until another workflow is entered.
  rcases renders.source_cases inJ leads with
    ⟨w, known, named, d, listed, same⟩ | ⟨i, inI, same, workflow, position⟩
  · right
    rw [← named]
    exact renders.workflow_of_goal keyed known listed inK (Int.natCast_inj.mp same).symm
  · left
    obtain rfl := renders.laid.eq_of_number inK inI (Int.natCast_inj.mp same)
    exact ⟨workflow, by omega⟩

theorem run_cases (renders : Renders book settings wiring js) (keyed : book.Keyed) {k : Junction}
    (inK : k ∈ js) {n : Int} (leads : Relation.TransGen wiring.network.Leads n k.number) :
    ∀ j ∈ js, n = j.number → (k.workflow = j.workflow ∧ j.position < k.position) ∨
      Relation.TransGen book.Routes j.workflow k.workflow := by
  induction leads using Relation.TransGen.head_induction_on with
  | single step =>
    intro j inJ same
    subst same
    exact (renders.step_cases keyed inJ inK step).imp_right .single
  | head step further ih =>
    intro j inJ same
    subst same
    obtain ⟨i, inI, rfl⟩ := renders.laid.junction_of_leads step further
    -- Once another workflow is entered, positions do not matter any more.
    rcases renders.step_cases keyed inJ inI step with ⟨named, less⟩ | routes
    · rcases ih i inI rfl with ⟨same, grows⟩ | onward
      · exact .inl ⟨same.trans named, less.trans grows⟩
      · exact .inr (named ▸ onward)
    · rcases ih i inI rfl with ⟨same, _⟩ | onward
      · exact .inr (same ▸ .single routes)
      · exact .inr (.head routes onward)

theorem routes_of_leads (renders : Renders book settings wiring js) (keyed : book.Keyed)
    {j : Junction} (mem : j ∈ js)
    (leads : Relation.TransGen wiring.network.Leads j.number j.number) :
    Relation.TransGen book.Routes j.workflow j.workflow := by
  rcases renders.run_cases keyed mem leads j mem rfl with ⟨_, less⟩ | routes
  · exact absurd less (Nat.lt_irrefl _)
  · exact routes

theorem failure?_of_junction (renders : Renders book settings wiring js)
    (ready : Ready book settings) {v : Visit} {e : Nat} {edge : Edge} {rest : List Nat}
    (reached : wiring.network.Reached settings v e edge rest) {j : Junction} (mem : j ∈ js)
    (own : edge ∈ j.edges) {label : String} (labelled : j.node.label = .ok label) :
    wiring.network.failure? v.branch =
      if v.branch.node ∈ v.branch.path then some (.report (.cycle label)) else none := by
  obtain ⟨slot, stored, node⟩ := renders.laid.slot_of_mem mem
  have place : v.branch.node = j.number :=
    reached.node_eq.trans (Junction.target_of_mem_edges own)
  have there : wiring.network.slot v.branch.node = .ok slot :=
    place ▸ Network.slot_natCast stored
  have within : j.number < wiring.network.size := (Array.getElem?_eq_some_iff.mp stored).1
  have edges := renders.laid.indexed.edgesFrom_eq within
  rw [← place] at edges
  obtain ⟨passed, outcome⟩ := Junction.outcome_of_mem_edges own
  rw [← reached.passage_eq] at outcome
  have left : v.branch.passage ≠ .entry := by
    intro entry
    rw [entry] at outcome
    cases outcome
  obtain ⟨w, known, number, listed, _⟩ := renders.origin j mem
  have rule := List.mem_of_getElem? (belongs_junctionsOf _ w number j listed).rule_eq
  have attr : j.rule.attr ∈ v.branch.box.attrs := reached.attrs_eq ▸ ready.known w known j.rule rule
  obtain ⟨box, narrowed, _⟩ := Box.narrow_spec j.rule.threshold attr outcome
  have kind : j.node.kind = .condition := rfl
  rw [← node] at kind labelled
  have possible : slot.node.narrow v.branch.box v.branch.passage = .ok box := by
    rw [node]
    exact narrowed
  exact Network.failure?_of_condition there kind labelled left possible edges

theorem failure_of_visit (renders : Renders book settings wiring js) (keyed : book.Keyed)
    (ready : Ready book settings) (writable : ∀ w ∈ book.workflows, w.Writable) {v : Visit}
    (visited : v ∈ wiring.network.visits settings) {fault : Fault}
    (failed : wiring.network.failure? v.branch = some fault) :
    ∃ label, book.Circles label ∧ fault = .report (.cycle label) := by
  obtain ⟨e, edge, rest, reached⟩ := Network.reached_of_mem_visits renders.laid.indexed visited
  rcases renders.laid.target_cases (Array.mem_of_getElem? reached.stored) with
    ⟨j, mem, own, target⟩ | entry
  · obtain ⟨w, known, number, listed, _⟩ := renders.origin j mem
    have belongs := belongs_junctionsOf _ w number j listed
    obtain ⟨label, labelled⟩ := Junction.label_eq belongs.rule_eq (writable w known)
    rw [renders.failure?_of_junction ready reached mem own labelled] at failed
    split at failed
    · rename_i again
      have leads := reached.path _ again
      rw [reached.node_eq, target] at leads
      have circle := renders.routes_of_leads keyed mem leads
      rw [belongs.named] at circle
      unfold Junction.node at labelled
      rw [belongs.named] at labelled
      cases failed
      exact ⟨label, ⟨w, known, j.rule, j.position, belongs.rule_eq, labelled, circle⟩, rfl⟩
    · cases failed
  · have emitted := (renders.laid.region?_eq_some_iff reached).mpr ⟨entry, rfl⟩
    rw [Network.failure?_of_region emitted] at failed
    cases failed

end Wiring.Renders

theorem Survey.ofRuleBook_cases {book : RuleBook} {settings : Settings} {wiring : Wiring}
    (keyed : book.Keyed) (made : Wiring.ofRuleBook book settings = .ok wiring) :
    (∃ survey, Survey.ofRuleBook book settings = .ok survey) ∨
      ∃ v ∈ wiring.network.visits settings, ∃ fault,
        wiring.network.failure? v.branch = some fault ∧
        Survey.ofRuleBook book settings = .error fault := by
  have laid := (Wiring.renders_of_ofRuleBook keyed made).laid
  obtain ⟨edges, listed⟩ := laid.edgesFrom_accept
  have walked := Network.result_walk listed settings
  unfold ofRuleBook
  rw [made]
  simp only [bind, Except.bind, ofWalk]
  cases found : (wiring.network.visits settings).findSome?
      fun v => wiring.network.failure? v.branch with
  | some fault =>
    obtain ⟨v, visited, failed⟩ := List.exists_of_findSome?_eq_some found
    rw [found] at walked
    refine .inr ⟨v, visited, fault, failed, ?_⟩
    simp only [walked]
  | none =>
    rw [found] at walked
    have agree : Cover.Agree ((wiring.network.visits settings).filterMap
        fun v => wiring.network.region? v.branch) := by
      intro a inA b inB _ _
      obtain ⟨_, _, rfl, _, _, left⟩ := laid.exists_of_mem_regions inA
      obtain ⟨_, _, rfl, _, _, right⟩ := laid.exists_of_mem_regions inB
      rw [left.attrs_eq, right.attrs_eq]
    obtain ⟨n, measured, _⟩ := Cover.union_of_agree agree
    simp only [walked, measured]
    exact .inl ⟨_, rfl⟩

theorem Survey.surveyed_or_cycle {book : RuleBook} {settings : Settings} {wiring : Wiring}
    (keyed : book.Keyed) (writable : ∀ w ∈ book.workflows, w.Writable)
    (made : Wiring.ofRuleBook book settings = .ok wiring) :
    (∃ survey, ofRuleBook book settings = .ok survey) ∨
      ∃ label, book.Circles label ∧
        ofRuleBook book settings = .error (.report (.cycle label)) := by
  rcases ofRuleBook_cases keyed made with found | ⟨v, visited, fault, failed, stopped⟩
  · exact .inl found
  · obtain ⟨label, circles, rfl⟩ := (Wiring.renders_of_ofRuleBook keyed made).failure_of_visit keyed
      (Wiring.ready_of_ofRuleBook made) writable visited failed
    exact .inr ⟨label, circles, stopped⟩

/-- A rule book whose destinations lead somewhere is counted, unless the walk comes back to a node
that it has passed, and then the node belongs to a workflow that routes to itself. -/
theorem RuleBook.accepted_or_cycle {made : List (Except Fault Workflow)} {book : RuleBook}
    {settings : Settings} (defined : RuleBook.ofWorkflows made = .ok book)
    (resolves : ∀ w ∈ book.workflows, ∀ d ∈ w.destinations, book.Resolves d)
    (known : ∀ w ∈ book.workflows, ∀ r ∈ w.rules, r.attr ∈ settings.attrs)
    (writable : ∀ w ∈ book.workflows, w.Writable) (valid : settings.problems = [])
    (started : (book.get? settings.start).isSome) :
    ((∃ n, book.accepted settings = .ok n) ∨
      ∃ label, book.Circles label ∧
        book.accepted settings = .error (.report (.cycle label))) ∧
    ((∀ name, ¬ Relation.TransGen book.Routes name name) →
      ∃ n, book.accepted settings = .ok n) := by
  have keyed := RuleBook.keyed_ofWorkflows defined
  have ready : Wiring.Ready book settings := ⟨valid, known, started⟩
  obtain ⟨wiring, wired⟩ := Wiring.ofRuleBook_returns keyed ready resolves
  rcases Survey.surveyed_or_cycle keyed writable wired with ⟨survey, found⟩ |
    ⟨label, circles, stopped⟩
  · have returns : book.accepted settings = .ok survey.volume := by
      unfold accepted
      rw [found]
      rfl
    exact ⟨.inl ⟨_, returns⟩, fun _ => ⟨_, returns⟩⟩
  · have reported : book.accepted settings = .error (.report (.cycle label)) := by
      unfold accepted
      rw [stopped]
      rfl
    refine ⟨.inr ⟨label, circles, reported⟩, fun acyclic => ?_⟩
    obtain ⟨w, _, _, _, _, _, routes⟩ := circles
    exact absurd routes (acyclic w.name)

theorem RuleBook.writable_of_small {book : RuleBook}
    (small : ∀ w ∈ book.workflows,
      (∀ r ∈ w.rules, r.threshold.value.natAbs < Numeral.powerOfTen 1) ∧
        w.rules.length < Numeral.powerOfTen 1) : ∀ w ∈ book.workflows, w.Writable :=
  fun w mem => ⟨fun r rule => Numeral.lt_bound ((small w mem).1 r rule),
    (Numeral.lt_bound (small w mem).2).le⟩

namespace Survey

theorem routes_sharing {name next : String} (routes : sharing.Routes name next) :
    name = "in" ∧ next = "low" ∨ name = "in" ∧ next = "deep" ∨ name = "low" ∧ next = "deep" := by
  obtain ⟨w, found, listed⟩ := routes
  have stored := RuleBook.get?_eq_some_iff.mp found
  simp only [sharing, List.mem_cons, Prod.mk.injEq, List.not_mem_nil, or_false] at stored
  rcases stored with ⟨rfl, rfl⟩ | ⟨rfl, rfl⟩ | ⟨rfl, rfl⟩ <;>
    simp [Workflow.destinations, Workflow.rules] at listed
  · simpa using listed
  · simpa using listed

theorem acyclic_sharing (name : String) : ¬ Relation.TransGen sharing.Routes name name := by
  have downward {first last : String} (routes : Relation.TransGen sharing.Routes first last) :
      first = "in" ∧ last = "low" ∨ first = "in" ∧ last = "deep" ∨
        first = "low" ∧ last = "deep" := by
    induction routes with
    | single step => exact routes_sharing step
    | tail _ step ih =>
      have next := routes_sharing step
      rcases ih with ⟨rfl, rfl⟩ | ⟨rfl, rfl⟩ | ⟨rfl, rfl⟩
      · exact .inr (.inl ⟨rfl, by simpa using next⟩)
      · simp at next
      · simp at next
  intro circle
  rcases downward circle with ⟨rfl, same⟩ | ⟨rfl, same⟩ | ⟨rfl, same⟩ <;> simp at same

theorem sharing_returns : ∃ n, sharing.accepted square = .ok n := by
  have defined : RuleBook.ofWorkflows (sharing.workflows.map .ok) = .ok sharing := rfl
  exact (RuleBook.accepted_or_cycle defined (by decide) (by decide)
    (RuleBook.writable_of_small (by decide)) (by decide) (by decide)).2 acyclic_sharing

end Survey

end RouteVolume
