import RouteVolume.Proofs.Network.Trails
import RouteVolume.Proofs.Wiring.Rendering

namespace RouteVolume

namespace Junction

def next (value : String → Int) (j : Junction) : Nat :=
  if j.rule.threshold.passes (value j.rule.attr) then j.passed else j.failed

inductive Runs (js : List Junction) (value : String → Int) : Nat → Nat → Prop
  | step {j : Junction} (mem : j ∈ js) : Runs js value j.number (j.next value)

theorem lets_iff {value : String → Int} {j : Junction} {e : Edge} (own : e ∈ j.edges) :
    j.node.Lets value e.passage ↔ e.source = j.next value ∧
      e.passage.outcome? = some (j.rule.threshold.passes (value j.rule.attr)) := by
  rw [edges, List.mem_pair] at own
  rw [node, Node.ofRule, Node.Lets, next]
  rcases own with rfl | rfl
  · cases passes : j.rule.threshold.passes (value j.rule.attr) <;> simp [Passage.outcome?]
  · cases passes : j.rule.threshold.passes (value j.rule.attr) <;> simp [Passage.outcome?]

theorem exists_edge (value : String → Int) (j : Junction) :
    ∃ e ∈ j.edges, j.node.Lets value e.passage := by
  cases passes : j.rule.threshold.passes (value j.rule.attr) with
  | true =>
    refine ⟨⟨j.passed, j.number, .pass⟩, List.mem_cons_self, ?_⟩
    rw [node, Node.ofRule, Node.Lets, passes, Passage.outcome?]
  | false =>
    refine ⟨⟨j.failed, j.number, .fail⟩, List.mem_cons_of_mem _ List.mem_cons_self, ?_⟩
    rw [node, Node.ofRule, Node.Lets, passes, Passage.outcome?]

end Junction

namespace Laid

variable {g : Network} {js : List Junction} {first : Nat}

theorem nodup_entrances (laid : Laid g js first) :
    (g.edges.toList.map fun e => (e.target, e.passage)).Nodup := by
  rw [(laid.edges_perm.map _).nodup_iff, List.map_append, List.nodup_append]
  refine ⟨?_, List.nodup_singleton _, ?_⟩
  · rw [List.map_flatMap, List.nodup_flatMap]
    refine ⟨fun j _ => by simp [Junction.edges], ?_⟩
    apply (List.pairwise_map.mp laid.distinct).imp
    intro j k differ entrance left right
    obtain ⟨e, ofJ, rfl⟩ := List.mem_map.mp left
    obtain ⟨d, ofK, same⟩ := List.mem_map.mp right
    have targets := congrArg Prod.fst same
    rw [Junction.target_of_mem_edges ofJ, Junction.target_of_mem_edges ofK] at targets
    exact differ (Int.natCast_inj.mp targets.symm)
  · intro entrance earlier last entry same
    obtain ⟨e, own, rfl⟩ := List.mem_map.mp earlier
    obtain ⟨j, mem, inside⟩ := List.mem_flatMap.mp own
    rw [List.map_singleton, List.mem_singleton] at entry
    rw [entry, Prod.mk.injEq] at same
    exact laid.target_ne_start mem inside same.1

theorem noTwins (laid : Laid g js first) : g.NoTwins := by
  intro e d edge other stored again target passage
  have known : e < (g.edges.toList.map fun e => (e.target, e.passage)).length := by
    rw [List.length_map, Array.length_toList]
    exact (Array.getElem?_eq_some_iff.mp stored).1
  refine (List.getElem?_inj known laid.nodup_entrances).mp ?_
  rw [List.getElem?_map, List.getElem?_map, Array.getElem?_toList, Array.getElem?_toList, stored,
    again, Option.map_some, Option.map_some, target, passage]

theorem target_ne_accept (laid : Laid g js first) : ∀ e ∈ g.edges, e.target ≠ Network.accept := by
  intro e mem
  have := laid.target_ge mem
  unfold Network.start at this
  unfold Network.accept
  omega

theorem runs_of_trail (laid : Laid g js first) {value : String → Int} {k : Int} {rest : List Nat}
    (trail : g.Trail value k rest) :
    ∀ n : Nat, k = n → Relation.ReflTransGen (Junction.Runs js value) n Network.accept := by
  induction trail with
  | arrived =>
    intro n place
    rw [← Int.natCast_inj.mp place]
  | along stored there lets _ ih =>
    intro n place
    rcases laid.target_cases (Array.mem_of_getElem? stored) with ⟨j, mem, own, target⟩ | entry
    · obtain ⟨slot, located, node⟩ := laid.slot_of_mem mem
      rw [target, Network.slot_natCast located] at there
      cases there
      rw [node] at lets
      obtain ⟨source, _⟩ := (Junction.lets_iff own).mp lets
      rw [← Int.natCast_inj.mp (target.symm.trans place)]
      exact .head (.step mem) (ih _ source)
    · obtain ⟨slot, located, node⟩ := laid.slot_start
      rw [entry, Network.slot_natCast located] at there
      cases there
      rw [node] at lets
      cases lets

theorem exists_trail_of_runs (laid : Laid g js first) {value : String → Int} {n : Nat}
    (runs : Relation.ReflTransGen (Junction.Runs js value) n Network.accept) :
    ∃ rest, g.Trail value n rest := by
  induction runs using Relation.ReflTransGen.head_induction_on with
  | refl => exact ⟨[], .arrived⟩
  | head step _ ih =>
    obtain ⟨rest, trail⟩ := ih
    cases step with
    | @step j mem =>
      obtain ⟨edge, own, lets⟩ := j.exists_edge value
      obtain ⟨e, stored⟩ := Array.mem_iff_getElem?.mp (laid.mem_edges.mpr (.inl ⟨j, mem, own⟩))
      obtain ⟨slot, located, node⟩ := laid.slot_of_mem mem
      obtain ⟨source, _⟩ := (Junction.lets_iff own).mp lets
      have target := Junction.target_of_mem_edges own
      rw [← source] at trail
      rw [← target]
      have there : g.slot edge.target = .ok slot := target ▸ Network.slot_natCast located
      rw [← node] at lets
      exact ⟨e :: rest, .along stored there lets trail⟩

theorem exists_trail_iff (laid : Laid g js first) {value : String → Int} {n : Nat} :
    (∃ rest, g.Trail value n rest) ↔
      Relation.ReflTransGen (Junction.Runs js value) n Network.accept := by
  constructor
  · intro ⟨_, trail⟩
    exact laid.runs_of_trail trail n rfl
  · exact laid.exists_trail_of_runs

end Laid

namespace Wiring

section Forward

variable {goal : Destination → Nat} {js : List Junction} {value : String → Int}

theorem runs_rule {j : Junction} {r : Rule} {rest : List Rule} {default : Destination} (mem : j ∈ js)
    (rule : j.rule = r) (passed : j.passed = goal r.destination)
    (failed : Relation.ReflTransGen (Junction.Runs js value) j.failed
      (goal (Workflow.routeFrom value default rest))) :
    Relation.ReflTransGen (Junction.Runs js value) j.number
      (goal (Workflow.routeFrom value default (r :: rest))) := by
  refine .head (.step mem) ?_
  unfold Junction.next Workflow.routeFrom
  rw [rule]
  by_cases passes : r.threshold.passes (value r.attr) = true
  · rw [if_pos passes, if_pos passes, passed]
  · rw [if_neg passes, if_neg passes]
    exact failed

theorem runs_chained {w : Workflow} {number position : Nat} {rules : List Rule}
    (part : chained goal w number position rules ⊆ js) :
    Relation.ReflTransGen (Junction.Runs js value) (afterFail goal w number rules)
      (goal (Workflow.routeFrom value w.default rules)) := by
  induction rules generalizing number position with
  | nil => exact .refl
  | cons r rest ih =>
    unfold chained at part
    obtain ⟨here, later⟩ := List.cons_subset.mp part
    exact runs_rule here rfl rfl (ih later)

theorem runs_route {w : Workflow} {number : Nat} (part : junctionsOf goal w number ⊆ js) :
    Relation.ReflTransGen (Junction.Runs js value) (goal (.workflow w.name))
      (goal (w.route value)) := by
  unfold junctionsOf at part
  obtain ⟨here, later⟩ := List.cons_subset.mp part
  exact runs_rule here rfl rfl (runs_chained later)

end Forward

namespace Renders

variable {book : RuleBook} {settings : Settings} {wiring : Wiring} {js : List Junction}
  {value : String → Int}

theorem goal_ge (renders : Renders book settings wiring js) (keyed : book.Keyed) {name : String}
    {w : Workflow} (found : book.get? name = some w) :
    3 ≤ goal wiring.entries (.workflow name) := by
  have stored := RuleBook.get?_eq_some_iff.mp found
  obtain ⟨number, part⟩ := renders.placed w (List.mem_map_of_mem stored)
  unfold junctionsOf at part
  have late := renders.laid.number_ge (List.cons_subset.mp part).1
  rwa [opening, keyed.name_eq found] at late

theorem eq_accept_of_goal (renders : Renders book settings wiring js) (keyed : book.Keyed)
    {d : Destination} (resolves : book.Resolves d) (same : goal wiring.entries d = Network.accept) :
    d = .accept := by
  cases d with
  | accept => rfl
  | reject => cases same
  | workflow name =>
    obtain ⟨w, found⟩ := Option.isSome_iff_exists.mp resolves
    have late := renders.goal_ge keyed found
    rw [same, Network.accept] at late
    omega

theorem runs_of_continues (renders : Renders book settings wiring js) (keyed : book.Keyed)
    {d e : Destination} (continues : Relation.ReflTransGen (book.Continues value) d e) :
    Relation.ReflTransGen (Junction.Runs js value) (goal wiring.entries d)
      (goal wiring.entries e) := by
  refine Relation.ReflTransGen.lift' (goal wiring.entries) ?_ d e continues
  intro _ _ step
  obtain ⟨found⟩ := step
  have stored := RuleBook.get?_eq_some_iff.mp found
  obtain ⟨number, part⟩ := renders.placed _ (List.mem_map_of_mem stored)
  rw [← keyed.name_eq found]
  exact runs_route part

structure Arrives (book : RuleBook) (value : String → Int) (goal : Destination → Nat)
    (js : List Junction) (n : Nat) : Prop where
  destination : ∀ d, book.Resolves d → goal d = n →
    Relation.ReflTransGen (book.Continues value) d .accept
  remainder : ∀ w number position rules, chained goal w number position rules ⊆ js →
    (∀ d ∈ rules.map (·.destination) ++ [w.default], book.Resolves d) →
    afterFail goal w number rules = n →
    Relation.ReflTransGen (book.Continues value) (Workflow.routeFrom value w.default rules) .accept

theorem arrives_accept (renders : Renders book settings wiring js) (keyed : book.Keyed) :
    Arrives book value (goal wiring.entries) js Network.accept where
  destination := by
    intro d resolves same
    rw [renders.eq_accept_of_goal keyed resolves same]
  remainder := by
    intro w number position rules part resolves same
    cases rules with
    | nil =>
      have default := renders.eq_accept_of_goal keyed (resolves _ (List.mem_singleton_self _)) same
      unfold Workflow.routeFrom
      rw [default]
    | cons r rest =>
      unfold chained at part
      have late : 3 ≤ number := renders.laid.number_ge (List.cons_subset.mp part).1
      rw [afterFail] at same
      rw [same, Network.accept] at late
      omega

theorem Arrives.rule {goal : Destination → Nat} {j : Junction}
    (arrives : Arrives book value goal js (j.next value)) {w : Workflow} {rest : List Rule}
    {number position : Nat} (passed : j.passed = goal j.rule.destination)
    (failed : j.failed = afterFail goal w number rest)
    (part : chained goal w number position rest ⊆ js)
    (resolves : ∀ d ∈ (j.rule :: rest).map (·.destination) ++ [w.default], book.Resolves d) :
    Relation.ReflTransGen (book.Continues value)
      (Workflow.routeFrom value w.default (j.rule :: rest)) .accept := by
  obtain ⟨destination, remainder⟩ := arrives
  unfold Junction.next at destination remainder
  unfold Workflow.routeFrom
  by_cases passes : j.rule.threshold.passes (value j.rule.attr) = true
  · rw [if_pos passes] at destination ⊢
    exact destination _ (resolves _ List.mem_cons_self) passed.symm
  · rw [if_neg passes] at remainder ⊢
    exact remainder w number position rest part
      (fun d mem => resolves d (List.mem_cons_of_mem _ mem)) failed.symm

theorem destination_of_next (renders : Renders book settings wiring js) (keyed : book.Keyed)
    {j : Junction} (mem : j ∈ js)
    (arrives : Arrives book value (goal wiring.entries) js (j.next value)) {d : Destination}
    (resolves : book.Resolves d) (same : goal wiring.entries d = j.number) :
    Relation.ReflTransGen (book.Continues value) d .accept := by
  have late := renders.laid.number_ge mem
  cases d with
  | accept => exact .refl
  | reject =>
    rw [← same, goal, Network.reject] at late
    omega
  | workflow name =>
    obtain ⟨w, found⟩ := Option.isSome_iff_exists.mp resolves
    have stored := RuleBook.get?_eq_some_iff.mp found
    have known : w ∈ book.workflows := List.mem_map_of_mem stored
    obtain ⟨number, part⟩ := renders.placed w known
    unfold junctionsOf at part
    obtain ⟨here, later⟩ := List.cons_subset.mp part
    have first : j = opening (goal wiring.entries) w number := by
      apply renders.laid.eq_of_number mem here
      rw [← same, opening, keyed.name_eq found]
    subst first
    exact .head (.route found) (arrives.rule rfl rfl later (renders.resolves w known))

theorem arrives_of_next (renders : Renders book settings wiring js) (keyed : book.Keyed)
    {j : Junction} (mem : j ∈ js)
    (arrives : Arrives book value (goal wiring.entries) js (j.next value)) :
    Arrives book value (goal wiring.entries) js j.number where
  destination := fun _ resolves same => renders.destination_of_next keyed mem arrives resolves same
  remainder := by
    intro w number position rules part resolves same
    cases rules with
    | nil =>
      exact renders.destination_of_next keyed mem arrives (resolves _ (List.mem_singleton_self _))
        same
    | cons r rest =>
      unfold chained at part
      obtain ⟨here, later⟩ := List.cons_subset.mp part
      obtain rfl := renders.laid.eq_of_number mem here same.symm
      exact arrives.rule rfl rfl later resolves

theorem arrives_of_runs (renders : Renders book settings wiring js) (keyed : book.Keyed) {n : Nat}
    (runs : Relation.ReflTransGen (Junction.Runs js value) n Network.accept) :
    Arrives book value (goal wiring.entries) js n := by
  -- From Accept backwards: what is known of the next junction carries over to this one.
  induction runs using Relation.ReflTransGen.head_induction_on with
  | refl => exact renders.arrives_accept keyed
  | head step _ ih =>
    obtain ⟨mem⟩ := step
    exact renders.arrives_of_next keyed mem ih

theorem accepts_iff (renders : Renders book settings wiring js) (keyed : book.Keyed) {p : Point} :
    (∃ rest, wiring.network.Trail (valueOf settings.attrs p)
      (goal wiring.entries (.workflow settings.start)) rest) ↔ book.Accepts settings p := by
  rw [renders.laid.exists_trail_iff]
  constructor
  · intro runs
    exact (renders.arrives_of_runs keyed runs).destination _ renders.started rfl
  · intro accepts
    exact renders.runs_of_continues keyed accepts

end Renders

end Wiring

end RouteVolume
