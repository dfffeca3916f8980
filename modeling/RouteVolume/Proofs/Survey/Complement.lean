import RouteVolume.Proofs.RuleBook.Ends
import RouteVolume.Proofs.Survey.Additions

namespace RouteVolume

theorem Workflow.Writable.recast {w : Workflow} (writable : w.Writable) (c : Recasting) :
    (w.recast c).Writable where
  thresholds := by
    rw [rules_recast, List.forall_mem_map]
    exact writable.thresholds
  positions := by
    rw [rules_recast, List.length_map]
    exact writable.positions

namespace RuleBook

structure Terminating (book : RuleBook) (settings : Settings) : Prop where
  keyed : book.Keyed
  ready : Wiring.Ready book settings
  resolves : ∀ w ∈ book.workflows, ∀ d ∈ w.destinations, book.Resolves d
  writable : ∀ w ∈ book.workflows, w.Writable
  acyclic : ∀ name, ¬ Relation.TransGen book.Routes name name

namespace Terminating

variable {book : RuleBook} {settings : Settings} (terminating : book.Terminating settings)

include terminating

theorem exchange : (book.recast .exchange).Terminating settings where
  keyed := terminating.keyed.recast
  ready :=
    { valid := terminating.ready.valid
      known := forall_attrs_recast.mpr terminating.ready.known
      started := by
        obtain ⟨w, found⟩ := Option.isSome_iff_exists.mp terminating.ready.started
        exact Option.isSome_iff_exists.mpr ⟨_, get?_recast_of (c := .exchange) found⟩ }
  resolves := forall_resolves_recast.mpr terminating.resolves
  writable := forall_workflows_recast.mpr fun w mem => (terminating.writable w mem).recast _
  acyclic := by
    intro name circle
    obtain ⟨a, routes⟩ := exists_circle_of_recast circle
    exact terminating.acyclic a routes

theorem surveyed : ∃ survey, Survey.ofRuleBook book settings = .ok survey := by
  obtain ⟨wiring, wired⟩ :=
    Wiring.ofRuleBook_returns terminating.keyed terminating.ready terminating.resolves
  rcases Survey.surveyed_or_cycle terminating.keyed terminating.writable wired with
    found | ⟨_, ⟨w, _, _, _, _, _, circle⟩, _⟩
  · exact found
  · exact absurd circle (terminating.acyclic w.name)

theorem accepted_eq : ∃ n, book.accepted settings = .ok n ∧
    {p : Point | p ∈ settings.domain ∧ book.Accepts settings p}.encard = n := by
  obtain ⟨survey, surveyed⟩ := terminating.surveyed
  refine ⟨survey.volume, ?_, Survey.encard_accepts terminating.keyed surveyed⟩
  rw [accepted, surveyed]
  rfl

theorem accepts_union :
    {p : Point | p ∈ settings.domain ∧ book.Accepts settings p} ∪
      {p : Point | p ∈ settings.domain ∧ (book.recast .exchange).Accepts settings p} =
      (settings.domain.points : Set Point) := by
  ext p
  rw [Set.mem_union, Set.mem_ofPred_eq, Set.mem_ofPred_eq, ← and_or_left, Finset.mem_coe,
    Box.mem_points, accepts_exchange_iff]
  exact and_iff_left (accepts_or_rejects terminating.resolves terminating.ready.started
    terminating.acyclic p)

end Terminating

theorem disjoint_accepts_exchange (book : RuleBook) (settings : Settings) :
    Disjoint {p : Point | p ∈ settings.domain ∧ book.Accepts settings p}
      {p : Point | p ∈ settings.domain ∧ (book.recast .exchange).Accepts settings p} := by
  apply Set.disjoint_left.mpr
  intro p ⟨_, accepts⟩ ⟨_, exchanged⟩
  exact not_rejects_of_accepts accepts (accepts_exchange_iff.mp exchanged)

/-- Where no workflow routes back to itself, the numbers of points that a rule book accepts as it is
and with its ends exchanged add up to the number of points in the domain. -/
theorem accepted_add_exchanged {made : List (Except Fault Workflow)} {book : RuleBook}
    {settings : Settings} (defined : ofWorkflows made = .ok book)
    (resolves : ∀ w ∈ book.workflows, ∀ d ∈ w.destinations, book.Resolves d)
    (known : ∀ w ∈ book.workflows, ∀ r ∈ w.rules, r.attr ∈ settings.attrs)
    (writable : ∀ w ∈ book.workflows, w.Writable)
    (acyclic : ∀ name, ¬ Relation.TransGen book.Routes name name)
    (valid : settings.problems = []) (started : (book.get? settings.start).isSome) :
    ofWorkflows (made.map (·.map (·.recast .exchange))) = .ok (book.recast .exchange) ∧
    ∃ m n, book.accepted settings = .ok m ∧
      (book.recast .exchange).accepted settings = .ok n ∧
      (m + n : Int) = settings.domainSize ^ settings.dimensions := by
  have terminating : book.Terminating settings :=
    ⟨keyed_ofWorkflows defined, ⟨valid, known, started⟩, resolves, writable, acyclic⟩
  obtain ⟨m, counted, size⟩ := terminating.accepted_eq
  obtain ⟨n, exchanged, other⟩ := terminating.exchange.accepted_eq
  refine ⟨ofWorkflows_recast defined, m, n, counted, exchanged, ?_⟩
  have sum := Set.encard_union_eq (disjoint_accepts_exchange book settings)
  rw [terminating.accepts_union, size, other, Set.encard_coe_eq_coe_finsetCard, Box.card_points,
    ← Nat.cast_add, Nat.cast_inj] at sum
  rw [← Nat.cast_add, ← sum, Settings.volume_domain valid]
  rfl

theorem sharing_add_exchanged : Survey.sharing.accepted Survey.square = .ok 13 ∧
    (Survey.sharing.recast .exchange).accepted Survey.square = .ok 3 := by
  have defined : ofWorkflows (Survey.sharing.workflows.map .ok) = .ok Survey.sharing := rfl
  have counted : Survey.sharing.accepted Survey.square = .ok 13 := by cbv
  have known : ∀ w ∈ Survey.sharing.workflows, ∀ r ∈ w.rules, r.attr ∈ Survey.square.attrs := by
    decide
  obtain ⟨_, m, n, first, second, sum⟩ := accepted_add_exchanged defined (by decide) known
    (writable_of_small (by decide)) Survey.acyclic_sharing (by decide) (by decide)
  rw [counted] at first
  cases first
  have size : Survey.square.domainSize ^ Survey.square.dimensions = 16 := by decide
  obtain rfl : n = 3 := by omega
  exact ⟨counted, second⟩

end RuleBook

end RouteVolume
