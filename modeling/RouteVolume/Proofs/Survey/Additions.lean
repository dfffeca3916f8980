import RouteVolume.Proofs.RuleBook.Extension
import RouteVolume.Proofs.Survey.Loops

namespace RouteVolume

namespace Wiring

variable {book larger : RuleBook} {settings : Settings} {wiring wider : Wiring}

structure Mirrors (book larger : RuleBook) (s : Stage) (b c : Branch) : Prop where
  node : b.node = nodeOf book s
  other : c.node = nodeOf larger s
  passage : b.passage = c.passage
  box : b.box = c.box
  path : ∀ u, book.Holds u → ((nodeOf book u : Int) ∈ b.path ↔ (nodeOf larger u : Int) ∈ c.path)

section Mirrors

variable (small : Wired book settings wiring) (large : Wired larger settings wider)
  (extends_ : larger.Extends book)

include small large extends_

theorem Mirrors.arrive {name : String} {i : Nat} {r : Rule} {passage : Passage} {t : Stage}
    {b c : Branch} (mirrors : Mirrors book larger (.rule name i) b c)
    (holds : book.Holds (.rule name i)) (branches : larger.Branches (.rule name i) r passage t)
    (left : c.passage = passage) (attrs : c.box.attrs = settings.attrs) :
    wiring.network.failure? b = wider.network.failure? c ∧
      ∀ box edges, wider.network.arrive c = .ok (.fork box edges) →
        ∃ own, wiring.network.arrive b = .ok (.fork box own) := by
  obtain ⟨narrowed, edges, part, _, arrives⟩ :=
    small.arrive_eq (branches.of_extends extends_ holds) mirrors.node (mirrors.passage.trans left)
      (mirrors.box ▸ attrs)
  obtain ⟨_, others, likewise, _, comes⟩ := large.arrive_eq branches mirrors.other left attrs
  rw [mirrors.box, likewise] at part
  cases part
  have again : b.node ∈ b.path ↔ c.node ∈ c.path := by
    rw [mirrors.node, mirrors.other]
    exact mirrors.path _ holds
  unfold Network.failure?
  by_cases been : c.node ∈ c.path
  · rw [if_pos (again.mpr been)] at arrives
    rw [if_pos been] at comes
    rw [arrives, comes]
    cases (Node.ofRule r name i).label <;> exact ⟨rfl, nofun⟩
  · rw [if_neg (again.not.mpr been)] at arrives
    rw [if_neg been] at comes
    rw [arrives, comes]
    by_cases feasible : narrowed.isFeasible = true
    · rw [if_pos feasible, if_pos feasible]
      refine ⟨rfl, fun box own forked => ?_⟩
      cases forked
      exact ⟨edges, rfl⟩
    · rw [if_neg feasible, if_neg feasible]
      exact ⟨rfl, nofun⟩

theorem exists_mirror {v : Visit} (visited : v ∈ wider.network.visits settings) :
    ∀ s, book.Holds s → v.branch.node = nodeOf larger s →
      ∃ u ∈ wiring.network.visits settings, Mirrors book larger s u.branch v.branch := by
  -- Each arrival of the larger rule book's walk at a stage that both have is mirrored in the walk
  -- of the smaller one, since a stage that both have leads to such stages only.
  suffices both : v ∈ wider.network.visits settings ∧ ∀ s, book.Holds s →
      v.branch.node = nodeOf larger s →
      ∃ u ∈ wiring.network.visits settings, Mirrors book larger s u.branch v.branch from both.2
  refine Network.visits_induction (motive := fun v => v ∈ wider.network.visits settings ∧
    ∀ s, book.Holds s → v.branch.node = nodeOf larger s →
      ∃ u ∈ wiring.network.visits settings, Mirrors book larger s u.branch v.branch) ?_ ?_ v visited
  · intro v begins
    refine ⟨Network.mem_visits_of_launch begins, fun s holds place => ?_⟩
    obtain ⟨e, edge, stored, source, rfl⟩ := (Network.mem_launches large.indexed).mp begins
    obtain ⟨r, branches⟩ := large.branches_of_edge (t := .accept) (Array.mem_of_getElem? stored)
      (holds.of_extends extends_) trivial source place
    obtain ⟨d, own⟩ := Array.mem_iff_getElem?.mp
      (small.mem_edges_of_branches (branches.of_extends extends_ holds))
    refine ⟨_, Network.mem_visits_of_launch ((Network.mem_launches small.indexed).mpr
      ⟨d, _, own, rfl, rfl⟩), rfl, place, rfl, rfl, fun u known => ?_⟩
    rw [List.mem_singleton, List.mem_singleton]
    exact (small.nodeOf_eq_iff (t := .accept) known trivial).trans
      (large.nodeOf_eq_iff (t := .accept) (known.of_extends extends_) trivial).symm
  · intro v child ⟨visited, ih⟩ onward
    refine ⟨Network.mem_visits_of_child visited onward, fun s holds place => ?_⟩
    rcases large.visit_cases visited with
      ⟨name, i, r, passage, t, branches, there, left, attrs, _⟩ | ⟨_, region⟩
    · obtain ⟨box, edges, e, edge, forked, stored, source, rfl⟩ :=
        (Network.mem_children_iff large.indexed there).mp onward
      obtain ⟨q, leads⟩ := large.branches_of_edge (Array.mem_of_getElem? stored)
        (holds.of_extends extends_) branches.holds_source source place
      have inner := leads.of_extends extends_ holds
      have known := small.holds_target inner
      obtain ⟨u, inside, mirrors⟩ := ih _ known there
      obtain ⟨own, likewise⟩ :=
        (mirrors.arrive small large extends_ known branches left attrs).2 box edges forked
      obtain ⟨d, kept⟩ := Array.mem_iff_getElem?.mp (small.mem_edges_of_branches inner)
      refine ⟨_, Network.mem_visits_of_child inside ((Network.mem_children_iff small.indexed
        mirrors.node).mpr ⟨box, own, d, _, likewise, kept, rfl, rfl⟩), rfl, place, rfl, rfl, ?_⟩
      intro w met
      rw [List.mem_cons, List.mem_cons, mirrors.path w met, mirrors.node, mirrors.other,
        small.nodeOf_eq_iff met known,
        large.nodeOf_eq_iff (met.of_extends extends_) (known.of_extends extends_)]
    · obtain ⟨_, _, _, forked, _⟩ := Network.mem_children.mp onward
      rw [region] at forked
      cases forked

theorem not_holds_of_failure (fine : ∀ v ∈ wiring.network.visits settings,
      wiring.network.failure? v.branch = none) {v : Visit}
    (visited : v ∈ wider.network.visits settings) {fault : Fault}
    (failed : wider.network.failure? v.branch = some fault) {s : Stage}
    (place : v.branch.node = nodeOf larger s) : ¬ book.Holds s := by
  intro holds
  obtain ⟨u, inside, mirrors⟩ := exists_mirror small large extends_ visited s holds place
  rcases large.visit_cases visited with
    ⟨name, i, r, passage, t, branches, there, left, attrs, _⟩ | ⟨_, region⟩
  · obtain rfl : s = .rule name i :=
      (large.nodeOf_eq_iff (holds.of_extends extends_) branches.holds_source).mp
        (place.symm.trans there)
    have same := (mirrors.arrive small large extends_ holds branches left attrs).1
    rw [fine u inside, failed] at same
    cases same
  · unfold Network.failure? at failed
    rw [region] at failed
    cases failed

end Mirrors

end Wiring

theorem Survey.encard_accepts {book : RuleBook} {settings : Settings} {survey : Survey}
    (keyed : book.Keyed) (surveyed : Survey.ofRuleBook book settings = .ok survey) :
    {p : Point | p ∈ settings.domain ∧ book.Accepts settings p}.encard = survey.volume := by
  rw [← encard_regions keyed surveyed]
  congr 1
  ext p
  exact (mem_regions_iff_accepts keyed surveyed).symm

namespace RuleBook

theorem survey_of_accepted {book : RuleBook} {settings : Settings} {n : Nat}
    (counted : book.accepted settings = .ok n) :
    ∃ survey, Survey.ofRuleBook book settings = .ok survey ∧ survey.volume = n := by
  unfold accepted at counted
  cases surveyed : Survey.ofRuleBook book settings with
  | error fault =>
    rw [surveyed] at counted
    cases counted
  | ok survey =>
    rw [surveyed] at counted
    cases counted
    exact ⟨survey, rfl, rfl⟩

/-- Is a larger rule book not counted because of a workflow that the smaller one does without? -/
def StoppedByAdded (book larger : RuleBook) (settings : Settings) : Prop :=
  ∃ w ∈ larger.workflows, book.get? w.name = none ∧
    (larger.Reports settings w ∨ larger.Unwritten settings w)

section Larger

variable {book larger : RuleBook} {settings : Settings} {survey : Survey} (keyed : book.Keyed)
  (keyed' : larger.Keyed) (extends_ : larger.Extends book)
  (surveyed : Survey.ofRuleBook book settings = .ok survey)

include keyed keyed' extends_ surveyed

theorem volume_eq_of_extends {wide : Survey}
    (found : Survey.ofRuleBook larger settings = .ok wide) : wide.volume = survey.volume := by
  have small := Wiring.wired_of_ofRuleBook keyed (Survey.parts_of_ofRuleBook surveyed).1
  have alike : {p : Point | p ∈ settings.domain ∧ larger.Accepts settings p} =
      {p : Point | p ∈ settings.domain ∧ book.Accepts settings p} := by
    ext p
    exact and_congr_right fun _ =>
      accepts_iff_of_extends extends_ small.image.resolves small.image.started p
  have size := Survey.encard_accepts keyed' found
  rw [alike, Survey.encard_accepts keyed surveyed, Nat.cast_inj] at size
  exact size.symm

theorem stoppedByAdded_of_failure {wider : Wiring}
    (wired : Wiring.ofRuleBook larger settings = .ok wider) {v : Visit}
    (visited : v ∈ wider.network.visits settings) {fault : Fault}
    (failed : wider.network.failure? v.branch = some fault)
    (stopped : Survey.ofRuleBook larger settings = .error fault) :
    StoppedByAdded book larger settings := by
  have small := Wiring.wired_of_ofRuleBook keyed (Survey.parts_of_ofRuleBook surveyed).1
  have large := Wiring.wired_of_ofRuleBook keyed' wired
  have fine := (Survey.walked_of_ofRuleBook keyed surveyed).1
  obtain ⟨_, w, i, known, within, place, reason⟩ := large.stops_of_failure visited failed stopped
  have added := Wiring.not_holds_of_failure small large extends_ fine visited failed place
  obtain rfl := keyed'.name_eq known
  refine ⟨w, mem_workflows_of_get? known, ?_, reason⟩
  by_contra present
  have inside := get?_of_extends extends_ (Option.isSome_iff_ne_none.mpr present) known
  exact added ⟨w, inside, within⟩

end Larger

/-- Workflows that are added are out of reach of the start, and leave the number of accepted points
as it is, unless a cycle is reported at a rule of theirs or a label of theirs cannot be written. -/
theorem additions_ignored {made more : List (Except Fault Workflow)} {book larger : RuleBook}
    {settings : Settings} {wider : Wiring} {n : Nat} (defined : ofWorkflows made = .ok book)
    (enlarged : ofWorkflows more = .ok larger) (kept : ∀ w ∈ book.workflows, w ∈ larger.workflows)
    (wired : Wiring.ofRuleBook larger settings = .ok wider)
    (counted : book.accepted settings = .ok n) :
    (∀ w ∈ larger.workflows, book.get? w.name = none →
      ¬ Relation.ReflTransGen larger.Routes settings.start w.name) ∧
    (larger.accepted settings = .ok n ∧ (∀ s, ¬ larger.Retraced settings s) ∨
      StoppedByAdded book larger settings) ∧
    ((∀ w ∈ larger.workflows, book.get? w.name = none →
      w.Writable ∧ ¬ Relation.TransGen larger.Routes w.name w.name) →
        larger.accepted settings = .ok n) := by
  have keyed := keyed_ofWorkflows defined
  have keyed' := keyed_ofWorkflows enlarged
  have extends_ := extends_of_subset keyed keyed' kept
  obtain ⟨survey, surveyed, rfl⟩ := survey_of_accepted counted
  have small := Wiring.wired_of_ofRuleBook keyed (Survey.parts_of_ofRuleBook surveyed).1
  have outcome : larger.accepted settings = .ok survey.volume ∧
      (∀ s, ¬ larger.Retraced settings s) ∨ StoppedByAdded book larger settings := by
    rcases Survey.ofRuleBook_cases keyed' wired with ⟨wide, found⟩ |
      ⟨v, visited, fault, failed, stopped⟩
    · refine .inl ⟨?_, Survey.not_retraced keyed' found⟩
      rw [accepted, found, ← volume_eq_of_extends keyed keyed' extends_ surveyed found]
      rfl
    · exact .inr (stoppedByAdded_of_failure keyed keyed' extends_ surveyed wired visited failed
        stopped)
  refine ⟨fun w _ absent reached => ?_, outcome, fun harmless => ?_⟩
  · have inside := get?_isSome_of_routes extends_ small.image.resolves small.image.started reached
    rw [absent] at inside
    cases inside
  · rcases outcome with ⟨same, _⟩ | ⟨w, mem, absent, reason⟩
    · exact same
    · obtain ⟨writable, acyclic⟩ := harmless w mem absent
      rcases reason with ⟨_, _, _, _, _, retraced, _⟩ | ⟨unwritten, _⟩
      · exact absurd retraced.routes acyclic
      · exact absurd writable unwritten

theorem not_routes_of_ends {book : RuleBook} {name next : String}
    (ends : ∀ w ∈ book.workflows, ∀ d ∈ w.destinations, d = .accept ∨ d = .reject) :
    ¬ book.Routes name next := by
  intro routes
  obtain ⟨w, found, listed⟩ := routes
  rcases ends w (mem_workflows_of_get? found) _ listed with same | same <;> cases same

def lone : RuleBook where
  entries := [("in", ⟨"in", ⟨"x", .below 9, .accept⟩, [], .reject, none⟩)]
  distinct := List.nodup_singleton _

def flanked (passed : Destination) : RuleBook where
  entries := [("in", ⟨"in", ⟨"x", .below 9, .accept⟩, [], .reject, none⟩),
    ("out", ⟨"out", ⟨"x", .below 5, passed⟩, [], .accept, none⟩)]
  distinct := by simp

theorem kept_flanked (passed : Destination) :
    ∀ w ∈ lone.workflows, w ∈ (flanked passed).workflows :=
  List.forall_mem_singleton.mpr List.mem_cons_self

theorem flanked_ignored : lone.accepted {} = .ok 512000000000 ∧
    (flanked .reject).accepted {} = .ok 512000000000 := by
  have defined : ofWorkflows (lone.workflows.map .ok) = .ok lone := rfl
  have enlarged : ofWorkflows ((flanked .reject).workflows.map .ok) = .ok (flanked .reject) := rfl
  have ready : Wiring.Ready (flanked .reject) {} := ⟨by decide, by decide, by decide⟩
  obtain ⟨wider, wired⟩ :=
    Wiring.ofRuleBook_returns (keyed_ofWorkflows enlarged) ready (by decide)
  have writable : ∀ w ∈ (flanked .reject).workflows, w.Writable := writable_of_small (by decide)
  have counted : lone.accepted {} = .ok 512000000000 := by cbv
  have ends : ∀ w ∈ (flanked .reject).workflows, ∀ d ∈ w.destinations,
      d = .accept ∨ d = .reject := by decide
  refine ⟨counted, (additions_ignored defined enlarged (kept_flanked _) wired
    counted).2.2 fun w mem _ => ⟨writable w mem, fun routes => ?_⟩⟩
  obtain ⟨next, step, _⟩ := Relation.TransGen.head'_iff.mp routes
  exact not_routes_of_ends ends step

/-- A workflow that nothing leads to, but that leads to itself and to Accept, is reported. -/
theorem flanked_reported : ofWorkflows (lone.workflows.map .ok) = .ok lone ∧
    ofWorkflows ((flanked (.workflow "out")).workflows.map .ok) = .ok (flanked (.workflow "out")) ∧
    (∀ w ∈ lone.workflows, w ∈ (flanked (.workflow "out")).workflows) ∧
    (∀ name, Relation.ReflTransGen (flanked (.workflow "out")).Routes "in" name → name = "in") ∧
    (∃ wiring, Wiring.ofRuleBook (flanked (.workflow "out")) {} = .ok wiring) ∧
    lone.accepted {} = .ok 512000000000 ∧
    ∃ label, (flanked (.workflow "out")).accepted {} = .error (.report (.cycle label)) := by
  have enlarged : ofWorkflows ((flanked (.workflow "out")).workflows.map .ok) =
      .ok (flanked (.workflow "out")) := rfl
  have ready : Wiring.Ready (flanked (.workflow "out")) {} :=
    ⟨by decide, by decide, by decide⟩
  have wired := Wiring.ofRuleBook_returns (keyed_ofWorkflows enlarged) ready (by decide)
  have found : (flanked (.workflow "out")).get? "out" =
      some ⟨"out", ⟨"x", .below 5, .workflow "out"⟩, [], .accept, none⟩ := rfl
  have rule : (⟨"out", ⟨"x", .below 5, .workflow "out"⟩, [], .accept, none⟩ : Workflow).rules[0]? =
      some ⟨"x", .below 5, .workflow "out"⟩ := rfl
  have retraced : (flanked (.workflow "out")).Retraced {} (.rule "out" 0) :=
    ⟨_, .pass, _, .pass found rule, [5, 5, 5, 5], Settings.mem_domain.mpr (by decide), .refl,
      .single ⟨_, .fail, .default found rule rfl, by decide⟩⟩
  refine ⟨rfl, enlarged, kept_flanked _, fun name reached => ?_, wired, by cbv,
    reported_of_stopped (writable_of_small (by decide))
      (stopped_of_retraced enlarged wired retraced)⟩
  obtain rfl | ⟨next, ⟨w, found, listed⟩, _⟩ := Relation.ReflTransGen.cases_head reached
  · rfl
  · cases found
    simp [Workflow.destinations, Workflow.rules] at listed

end RuleBook

end RouteVolume
