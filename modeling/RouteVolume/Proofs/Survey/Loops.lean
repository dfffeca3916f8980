import RouteVolume.Proofs.Survey.Cycles
import RouteVolume.Proofs.Wiring.Arrivals

namespace RouteVolume

namespace Wiring.Wired

variable {book : RuleBook} {settings : Settings} {wiring : Wiring} {s : Stage}

theorem exists_failure_of_retraced (wired : Wired book settings wiring)
    (retraced : book.Retraced settings s) :
    ∃ v ∈ wiring.network.visits settings, wiring.network.failure? v.branch ≠ none := by
  by_contra fine
  push Not at fine
  obtain ⟨r, passage, t, branches, q, inside, comes, goesOn⟩ := retraced
  obtain ⟨rest, trail, again⟩ := wired.trail_of_runs comes goesOn
  obtain ⟨e, stored⟩ := Array.mem_iff_getElem?.mp (wired.mem_edges_of_branches branches)
  obtain ⟨v, visited, trail_eq⟩ :=
    Network.exists_visit_of_trail wired.indexed fine inside trail stored rfl
  obtain ⟨d, edge, rest', reached⟩ := Network.reached_of_mem_visits wired.indexed visited
  have same := reached.trail_eq
  rw [trail_eq, List.cons.injEq] at same
  obtain ⟨rfl, rfl⟩ := same
  obtain rfl := Option.some.inj (stored.symm.trans reached.stored)
  obtain ⟨name, i, rfl⟩ := branches.exists_site
  obtain ⟨_, _, _, _, arrives⟩ :=
    wired.arrive_eq branches reached.node_eq reached.passage_eq reached.attrs_eq
  have been : v.branch.node ∈ v.branch.path := by
    rw [Network.path_of_mem_visits visited, trail_eq, List.tail_cons, reached.node_eq]
    exact again
  rw [if_pos been] at arrives
  exact Network.failure?_ne_none arrives (fine v visited)

theorem visit_cases (wired : Wired book settings wiring) {v : Visit}
    (visited : v ∈ wiring.network.visits settings) :
    (∃ name i r passage t, book.Branches (.rule name i) r passage t ∧
      v.branch.node = nodeOf book (.rule name i) ∧ v.branch.passage = passage ∧
      v.branch.box.attrs = settings.attrs ∧
      (v.branch.node ∈ v.branch.path → book.Retraced settings (.rule name i))) ∨
    v.branch.node = Network.start ∧ wiring.network.arrive v.branch = .ok .region := by
  obtain ⟨e, edge, rest, reached⟩ := Network.reached_of_mem_visits wired.indexed visited
  rcases wired.edge_cases (Array.mem_of_getElem? reached.stored) with
    ⟨s, r, t, branches, same⟩ | entry
  · left
    obtain ⟨name, i, rfl⟩ := branches.exists_site
    refine ⟨name, i, r, edge.passage, t, branches, ?_, reached.passage_eq, reached.attrs_eq, ?_⟩
    · rw [reached.node_eq, same]
    · intro again
      -- Some point of the box follows the trail, and has come by the rule on it.
      obtain ⟨q, within⟩ := (Box.isFeasible_iff _).mp
        (reached.feasible (Settings.domain_feasible wired.ready.valid))
      obtain ⟨inside, trail⟩ := (reached.mem_box q).mp within
      rw [Network.path_of_mem_visits visited, reached.trail_eq, List.tail_cons, reached.node_eq,
        same] at again
      obtain ⟨_, through⟩ :=
        wired.runs_of_trail trail (wired.holds_target branches) (congrArg Edge.source same)
      exact ⟨r, edge.passage, t, branches, q, inside, through _ branches.holds_source again⟩
  · right
    have place : v.branch.node = Network.start := by rw [reached.node_eq, entry]
    obtain ⟨slot, stored, start⟩ := wired.slot_start
    have there : wiring.network.slot v.branch.node = .ok slot :=
      place ▸ Network.slot_natCast stored
    exact ⟨place, Network.arrive_start there start⟩

theorem failure_cases (wired : Wired book settings wiring) {v : Visit}
    (visited : v ∈ wiring.network.visits settings) {fault : Fault}
    (failed : wiring.network.failure? v.branch = some fault) :
    ∃ name i r passage t, book.Branches (.rule name i) r passage t ∧
      v.branch.node = nodeOf book (.rule name i) ∧
      ((∃ label, (Node.ofRule r name i).label = .ok label ∧ fault = .report (.cycle label) ∧
          book.Retraced settings (.rule name i)) ∨
        (Node.ofRule r name i).label = .error .longNumeral ∧ fault = .longNumeral) := by
  rcases wired.visit_cases visited with
    ⟨name, i, r, passage, t, branches, place, left, attrs, retraced⟩ | ⟨_, arrives⟩
  · refine ⟨name, i, r, passage, t, branches, place, ?_⟩
    obtain ⟨narrowed, edges, _, _, arrives⟩ := wired.arrive_eq branches place left attrs
    rcases Network.fault_of_test arrives failed with
      ⟨label, labelled, reported, again⟩ | unwritten
    · exact .inl ⟨label, labelled, reported, retraced again⟩
    · exact .inr unwritten
  · unfold Network.failure? at failed
    rw [arrives] at failed
    cases failed

end Wiring.Wired

namespace RuleBook

/-- Is a cycle reported at a rule of a workflow, and this rule retraced? -/
def Reports (book : RuleBook) (settings : Settings) (w : Workflow) : Prop :=
  ∃ (i : Nat) (r : Rule) (label : String), w.rules[i]? = some r ∧
    (Node.ofRule r w.name i).label = .ok label ∧ book.Retraced settings (.rule w.name i) ∧
    book.accepted settings = .error (.report (.cycle label))

/-- Is a rule book not counted because a label of a workflow cannot be written? -/
def Unwritten (book : RuleBook) (settings : Settings) (w : Workflow) : Prop :=
  ¬ w.Writable ∧ book.accepted settings = .error .longNumeral

end RuleBook

theorem Wiring.Wired.stops_of_failure {book : RuleBook} {settings : Settings} {wiring : Wiring}
    (wired : Wired book settings wiring) {v : Visit}
    (visited : v ∈ wiring.network.visits settings) {fault : Fault}
    (failed : wiring.network.failure? v.branch = some fault)
    (stopped : Survey.ofRuleBook book settings = .error fault) :
    ∃ name w i, book.get? name = some w ∧ i < w.rules.length ∧
      v.branch.node = nodeOf book (.rule name i) ∧
      (book.Reports settings w ∨ book.Unwritten settings w) := by
  obtain ⟨name, i, r, _, _, branches, place, reason⟩ := wired.failure_cases visited failed
  obtain ⟨w, known, rule⟩ := branches.rule_eq rfl
  have named := wired.keyed.name_eq known
  subst named
  have outcome : book.accepted settings = .error fault := by
    unfold RuleBook.accepted
    rw [stopped]
    rfl
  refine ⟨_, w, i, known, (List.getElem?_eq_some_iff.mp rule).1, place, ?_⟩
  rcases reason with ⟨label, labelled, rfl, retraced⟩ | ⟨unwritten, rfl⟩
  · exact .inl ⟨i, r, label, rule, labelled, retraced, outcome⟩
  · refine .inr ⟨fun writable => ?_, outcome⟩
    obtain ⟨label, labelled⟩ := writable.label_eq rule w.name
    rw [unwritten] at labelled
    cases labelled

theorem Survey.not_retraced {book : RuleBook} {settings : Settings} {survey : Survey}
    (keyed : book.Keyed) (surveyed : Survey.ofRuleBook book settings = .ok survey) (s : Stage) :
    ¬ book.Retraced settings s := by
  intro retraced
  have wired := Wiring.wired_of_ofRuleBook keyed (parts_of_ofRuleBook surveyed).1
  obtain ⟨v, visited, failed⟩ := wired.exists_failure_of_retraced retraced
  exact failed ((walked_of_ofRuleBook keyed surveyed).1 v visited)

namespace RuleBook

theorem accepted_or_stopped {book : RuleBook} {settings : Settings} {wiring : Wiring}
    (keyed : book.Keyed) (made : Wiring.ofRuleBook book settings = .ok wiring) :
    (∃ n, book.accepted settings = .ok n) ∧ (∀ s, ¬ book.Retraced settings s) ∨
      ∃ w ∈ book.workflows, book.Reports settings w ∨ book.Unwritten settings w := by
  rcases Survey.ofRuleBook_cases keyed made with ⟨survey, found⟩ |
    ⟨v, visited, fault, failed, stopped⟩
  · exact .inl ⟨⟨survey.volume, by rw [accepted, found]; rfl⟩, Survey.not_retraced keyed found⟩
  · obtain ⟨_, w, _, known, _, _, reason⟩ :=
      (Wiring.wired_of_ofRuleBook keyed made).stops_of_failure visited failed stopped
    exact .inr ⟨w, mem_workflows_of_get? known, reason⟩

theorem stopped_of_retraced {made : List (Except Fault Workflow)} {book : RuleBook}
    {settings : Settings} (defined : ofWorkflows made = .ok book)
    (wired : ∃ wiring, Wiring.ofRuleBook book settings = .ok wiring) {s : Stage}
    (retraced : book.Retraced settings s) :
    ∃ w ∈ book.workflows, book.Reports settings w ∨ book.Unwritten settings w := by
  obtain ⟨wiring, wired⟩ := wired
  rcases accepted_or_stopped (keyed_ofWorkflows defined) wired with ⟨_, never⟩ | stopped
  · exact absurd retraced (never s)
  · exact stopped

theorem reported_of_stopped {book : RuleBook} {settings : Settings}
    (writable : ∀ w ∈ book.workflows, w.Writable)
    (stopped : ∃ w ∈ book.workflows, book.Reports settings w ∨ book.Unwritten settings w) :
    ∃ label, book.accepted settings = .error (.report (.cycle label)) := by
  obtain ⟨w, mem, ⟨_, _, label, _, _, _, reported⟩ | ⟨unwritten, _⟩⟩ := stopped
  · exact ⟨label, reported⟩
  · exact absurd (writable w mem) unwritten

/-- Endless evaluation goes round a loop of rules. It keeps the rule book from being counted where
some point comes from the loop to Accept: a rule book is counted, and no rule is retraced, or a
cycle is reported at a rule that is, or a label cannot be written. -/
theorem endless_reported {made : List (Except Fault Workflow)} {book : RuleBook}
    {settings : Settings} {wiring : Wiring} (defined : ofWorkflows made = .ok book)
    (wired : Wiring.ofRuleBook book settings = .ok wiring) :
    (∀ p ∈ settings.domain, book.Endless settings p →
      (∃ s t, book.Circuit settings p s t) ∧
      ∀ s t, book.Circuit settings p s t → book.Escapes settings t s →
        ∃ w ∈ book.workflows, book.Reports settings w ∨ book.Unwritten settings w) ∧
    ((∃ n, book.accepted settings = .ok n) ∧ (∀ s, ¬ book.Retraced settings s) ∨
      ∃ w ∈ book.workflows, book.Reports settings w ∨ book.Unwritten settings w) := by
  have keyed := keyed_ofWorkflows defined
  have image := Wiring.image_of_ofRuleBook keyed wired
  refine ⟨fun p _ endless => ⟨?_, fun s t circuit escapes => ?_⟩, accepted_or_stopped keyed wired⟩
  · exact exists_circuit_of_endless image.resolves image.started endless
  · exact stopped_of_retraced defined ⟨wiring, wired⟩ (circuit.retraced escapes)

def circling (threshold : Int) (default : Destination) : RuleBook where
  entries := [("in", ⟨"in", ⟨"x", .below threshold, .workflow "in"⟩, [], default, none⟩)]
  distinct := List.nodup_singleton _

def ones : Point := [1, 1, 1, 1]

theorem endless_circling {threshold : Int} (default : Destination) (more : 1 < threshold) :
    (circling threshold default).Endless {} ones := by
  have found : (circling threshold default).get? "in" =
      some ⟨"in", ⟨"x", .below threshold, .workflow "in"⟩, [], default, none⟩ := rfl
  refine endless_of_route found ?_
  have value : valueOf ({} : Settings).attrs ones "x" = 1 := by decide
  simp [Workflow.route, Workflow.rules, Workflow.routeFrom, Threshold.below, Threshold.passes,
    value, more]

theorem circling_reported : ones ∈ ({} : Settings).domain ∧ (circling 3 .accept).Endless {} ones ∧
    ∃ label, (circling 3 .accept).accepted {} = .error (.report (.cycle label)) := by
  have defined : ofWorkflows ((circling 3 .accept).workflows.map .ok) = .ok (circling 3 .accept) :=
    rfl
  have keyed := keyed_ofWorkflows defined
  have ready : Wiring.Ready (circling 3 .accept) {} := ⟨by decide, by decide, by decide⟩
  obtain ⟨wiring, wired⟩ := Wiring.ofRuleBook_returns keyed ready (by decide)
  have writable : ∀ w ∈ (circling 3 .accept).workflows, w.Writable :=
    writable_of_small (by decide)
  have inside : ones ∈ ({} : Settings).domain := Settings.mem_domain.mpr (by decide)
  have endless : (circling 3 .accept).Endless {} ones := endless_circling .accept (by decide)
  have found : (circling 3 .accept).get? "in" =
      some ⟨"in", ⟨"x", .below 3, .workflow "in"⟩, [], .accept, none⟩ := rfl
  have rule : (⟨"in", ⟨"x", .below 3, .workflow "in"⟩, [], .accept, none⟩ : Workflow).rules[0]? =
      some ⟨"x", .below 3, .workflow "in"⟩ := rfl
  have circuit : (circling 3 .accept).Circuit {} ones (.rule "in" 0) (.rule "in" 0) :=
    ⟨.refl, ⟨_, .pass, .pass found rule, by decide⟩, .refl⟩
  have escapes : (circling 3 .accept).Escapes {} (.rule "in" 0) (.rule "in" 0) :=
    ⟨[5, 5, 5, 5], Settings.mem_domain.mpr (by decide), .refl,
      .single ⟨_, .fail, .default found rule rfl, by decide⟩⟩
  have stopped := ((endless_reported defined wired).1 ones inside endless).2 _ _ circuit escapes
  exact ⟨inside, endless, reported_of_stopped writable stopped⟩

/-- Where a loop does not lead to Accept, the points that go round it are not reported. -/
theorem circling_counted :
    ofWorkflows ((circling 5 .reject).workflows.map .ok) = .ok (circling 5 .reject) ∧
    (∃ wiring, Wiring.ofRuleBook (circling 5 .reject) {} = .ok wiring) ∧
    ones ∈ ({} : Settings).domain ∧ (circling 5 .reject).Endless {} ones ∧
    (circling 5 .reject).accepted {} = .ok 0 := by
  have defined : ofWorkflows ((circling 5 .reject).workflows.map .ok) = .ok (circling 5 .reject) :=
    rfl
  refine ⟨defined, ?_, Settings.mem_domain.mpr (by decide), endless_circling .reject (by decide),
    by cbv⟩
  exact Wiring.ofRuleBook_returns (keyed_ofWorkflows defined) ⟨by decide, by decide, by decide⟩
    (by decide)

end RuleBook

end RouteVolume
