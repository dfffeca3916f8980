import Mathlib.Data.Set.Function
import RouteVolume.Proofs.Wiring.Sites

namespace RouteVolume

namespace Network

/-- The edges that enter a node by a passage. -/
def into (g : Network) (k : Nat) (p : Passage) : List Edge :=
  g.edges.toList.filter fun e => e.target = k ∧ e.passage = p

def IsCondition (g : Network) (k : Nat) : Prop := ∃ n, g.nodes[k]? = some n ∧ n.kind = .condition

end Network

namespace Wiring

/-- Where a destination leads, if the node for each site has a given number. -/
def target (number : String → Nat → Nat) : Destination → Nat
  | .accept => Network.accept
  | .reject => Network.reject
  | .workflow name => number name 0

def onFail (number : String → Nat → Nat) (w : Workflow) (position : Nat) : Nat :=
  if position + 1 < w.rules.length then number w.name (position + 1) else target number w.default

/-- A wiring has a node for each rule, under the number for the rule's site, and its edges are those
that the rules and the start say. -/
structure Image (book : RuleBook) (settings : Settings) (wiring : Wiring)
    (number : String → Nat → Nat) : Prop where
  frozen : wiring.network.frozen = true
  valid : wiring.network.validate = .ok ()
  size : wiring.network.size = 3 + book.rules.length
  edgeCount : wiring.network.edges.size = 2 * book.rules.length + 1
  ends : wiring.network.nodes.take 3 = [.reject, .accept, .start]
  resolves : ∀ w ∈ book.workflows, ∀ d ∈ w.destinations, book.Resolves d
  started : book.Resolves (.workflow settings.start)
  sites : Set.BijOn (fun site => number site.1 site.2) book.sites
    {k | wiring.network.IsCondition k}
  entries : ∀ name, wiring.entries.lookup name = (book.get? name).map fun _ => number name 0
  node : ∀ w ∈ book.workflows, ∀ i r, w.rules[i]? = some r →
    wiring.network.nodes[number w.name i]? = some (.ofRule r w.name i)
  pass : ∀ w ∈ book.workflows, ∀ i r, w.rules[i]? = some r →
    wiring.network.into (number w.name i) .pass =
      [⟨target number r.destination, number w.name i, .pass⟩]
  fail : ∀ w ∈ book.workflows, ∀ i < w.rules.length,
    wiring.network.into (number w.name i) .fail = [⟨onFail number w i, number w.name i, .fail⟩]
  entry : wiring.network.edges.toList.filter (fun e => e.passage = .entry) =
    [⟨number settings.start 0, Network.start, .entry⟩]
  others : ∀ e ∈ wiring.network.edges, e.passage ≠ .entry →
    ∃ site ∈ book.sites, e.target = number site.1 site.2

theorem shape_of_ofRuleBook {book : RuleBook} {settings : Settings} {wiring : Wiring}
    (made : ofRuleBook book settings = .ok wiring) :
    wiring.network.frozen = true ∧ wiring.entries = entriesOf book := by
  obtain ⟨h, placed, _, _⟩ := placeEntries_sortedEntries book
  rw [ofRuleBook_of_ready (ready_of_ofRuleBook made), placed] at made
  simp only [bind, Except.bind] at made
  split at made
  · cases made
  · split at made
    · cases made
    · split at made
      · cases made
      · split at made
        · cases made
        · cases made
          exact ⟨rfl, rfl⟩

end Wiring

namespace Laid

variable {g : Network} {js : List Junction} {first : Nat}

theorem length_edges (laid : Laid g js first) : g.edges.size = 2 * js.length + 1 := by
  have count := laid.edges_perm.length_eq
  rw [Array.length_toList, List.length_append, List.length_flatMap] at count
  simpa [Junction.edges, Nat.mul_comm] using count

theorem into_perm (laid : Laid g js first) {j : Junction} (mem : j ∈ js) (p : Passage) :
    (g.into j.number p).Perm (j.edges.filter fun e => e.passage = p) := by
  have own := (laid.entering mem).filter fun e => e.passage = p
  rw [List.filter_filter] at own
  unfold Network.into
  convert own using 2
  simp [and_comm]

theorem filter_entry (laid : Laid g js first) :
    g.edges.toList.filter (fun e => e.passage = .entry) = [⟨first, Network.start, .entry⟩] := by
  have kept := laid.edges_perm.filter fun e => e.passage = .entry
  have none : (js.flatMap Junction.edges).filter (fun e => e.passage = .entry) = [] := by
    apply List.filter_eq_nil_iff.mpr
    intro e mem
    obtain ⟨j, _, own⟩ := List.mem_flatMap.mp mem
    unfold Junction.edges at own
    rw [List.mem_pair] at own
    rcases own with rfl | rfl <;> simp
  rw [List.filter_append, none, List.nil_append, List.filter_singleton] at kept
  exact List.perm_singleton.mp kept

theorem isCondition_iff (laid : Laid g js first) {k : Nat} :
    g.IsCondition k ↔ ∃ j ∈ js, j.number = k := by
  constructor
  · intro ⟨n, stored, kind⟩
    obtain ⟨s, there, rfl⟩ := Network.exists_slot_of_node stored
    rcases laid.slot_cases there with ⟨_, node⟩ | ⟨_, node⟩ | ⟨_, node⟩ | ⟨j, mem, number, _⟩
    · rw [node] at kind
      cases kind
    · rw [node] at kind
      cases kind
    · rw [node] at kind
      cases kind
    · exact ⟨j, mem, number.symm⟩
  · intro ⟨j, mem, number⟩
    exact ⟨j.node, number ▸ laid.node_of_mem mem, rfl⟩

end Laid

namespace Wiring

section Numbered

variable {book : RuleBook} {settings : Settings} {wiring : Wiring} (keyed : book.Keyed)
  (renders : Renders book settings wiring (layout book)) (listed : wiring.entries = entriesOf book)

include keyed renders

theorem sites_bijOn : Set.BijOn (fun site => numberAt book site.1 site.2) book.sites
    {k | wiring.network.IsCondition k} := by
  have junction (site : String × Nat) (mem : site ∈ book.sites) :
      ∃ j ∈ layout book, j.site = site := by
    obtain ⟨w, found, within⟩ := mem
    have known : w ∈ book.workflows := List.mem_map_of_mem (RuleBook.get?_eq_some_iff.mp found)
    obtain ⟨j, placed, same⟩ := exists_junction known within
    exact ⟨j, placed, by rw [same, keyed.name_eq found]⟩
  have number {j : Junction} (placed : j ∈ layout book) :
      numberAt book j.site.1 j.site.2 = j.number := numberAt_eq keyed placed rfl
  refine ⟨fun site mem => ?_, fun site left other right same => ?_, fun k condition => ?_⟩
  · obtain ⟨j, placed, rfl⟩ := junction site mem
    exact renders.laid.isCondition_iff.mpr ⟨j, placed, (number placed).symm⟩
  · obtain ⟨j, inJ, rfl⟩ := junction site left
    obtain ⟨k, inK, rfl⟩ := junction other right
    dsimp only at same
    rw [number inJ, number inK] at same
    rw [renders.laid.eq_of_number inJ inK same]
  · obtain ⟨j, placed, rfl⟩ := renders.laid.isCondition_iff.mp condition
    obtain ⟨w, known, settled⟩ := settled_of_mem_layout placed
    have within := (List.getElem?_eq_some_iff.mp settled.rule_eq).1
    refine ⟨j.site, ⟨w, ?_, within⟩, number placed⟩
    rw [Junction.site, settled.named, keyed.get?_name known]

include listed

theorem numberAt_zero {w : Workflow} (known : w ∈ book.workflows) :
    numberAt book w.name 0 = goal (entriesOf book) (.workflow w.name) := by
  obtain ⟨number, part⟩ := renders.placed w known
  rw [listed] at part
  exact numberAt_eq keyed (part List.mem_cons_self) rfl

theorem target_eq {d : Destination} (resolves : book.Resolves d) :
    target (numberAt book) d = goal (entriesOf book) d := by
  cases d with
  | accept | reject => rfl
  | workflow name =>
    obtain ⟨w, found⟩ := Option.isSome_iff_exists.mp resolves
    have known : w ∈ book.workflows := List.mem_map_of_mem (RuleBook.get?_eq_some_iff.mp found)
    rw [target, ← keyed.name_eq found, numberAt_zero keyed renders listed known]

theorem lookup_entries (name : String) :
    wiring.entries.lookup name = (book.get? name).map fun _ => numberAt book name 0 := by
  rw [listed]
  cases found : book.get? name with
  | none =>
    have unlisted := lookup_entriesOf_isSome.not.mpr (by rw [found]; simp)
    exact Option.not_isSome_iff_eq_none.mp unlisted
  | some w =>
    have known : w ∈ book.workflows := List.mem_map_of_mem (RuleBook.get?_eq_some_iff.mp found)
    obtain ⟨k, stored⟩ := Option.isSome_iff_exists.mp
      (lookup_entriesOf_isSome.mpr (by rw [found]; rfl))
    have zero := numberAt_zero keyed renders listed known
    rw [keyed.name_eq found, goal, stored, Option.getD_some] at zero
    rw [stored, Option.map_some, zero]

theorem junction_at {w : Workflow} (known : w ∈ book.workflows) {i : Nat} {r : Rule}
    (rule : w.rules[i]? = some r) : ∃ j ∈ layout book, j.number = numberAt book w.name i ∧
      j.node = .ofRule r w.name i ∧
      j.passed = target (numberAt book) r.destination ∧ j.failed = onFail (numberAt book) w i := by
  have within := (List.getElem?_eq_some_iff.mp rule).1
  obtain ⟨j, mem, site⟩ := exists_junction known within
  obtain ⟨named, position⟩ := Prod.mk.inj site
  obtain ⟨v, other, settled⟩ := settled_of_mem_layout mem
  obtain rfl : v = w := by
    have left := keyed.get?_name other
    rw [← settled.named, named, keyed.get?_name known] at left
    exact (Option.some.inj left).symm
  have same := settled.rule_eq
  rw [position, rule] at same
  obtain rfl := Option.some.inj same
  have resolves := renders.resolves v known
  refine ⟨j, mem, (numberAt_eq keyed mem site).symm, ?_, ?_, ?_⟩
  · rw [Junction.node, named, position]
  · rw [settled.passed, target_eq keyed renders listed]
    exact resolves _ (destination_mem (List.mem_of_getElem? rule))
  · unfold onFail
    split
    · rename_i more
      rw [← position] at more
      obtain ⟨k, next, place, failed⟩ := settled.next more
      rw [failed, ← position, numberAt_eq keyed next place]
    · have last : j.position + 1 = v.rules.length := by omega
      rw [settled.last last, target_eq keyed renders listed]
      exact resolves _ (List.mem_append_right _ (List.mem_singleton_self _))

end Numbered

theorem image_of_ofRuleBook {book : RuleBook} {settings : Settings} {wiring : Wiring}
    (keyed : book.Keyed) (made : ofRuleBook book settings = .ok wiring) :
    Image book settings wiring (numberAt book) := by
  have renders := renders_of_ofRuleBook keyed made
  obtain ⟨frozen, listed⟩ := shape_of_ofRuleBook made
  have laid := renders.laid
  have bijective := sites_bijOn keyed renders
  refine ⟨frozen, laid.validate_eq, ?_, ?_, ?_, renders.resolves, renders.started,
    bijective, lookup_entries keyed renders listed, ?_, ?_, ?_, ?_, ?_⟩
  · rw [laid.size_eq, length_layout]
  · rw [laid.length_edges, length_layout]
  · rw [laid.nodes_eq]
    rfl
  · intro w known i r rule
    obtain ⟨j, mem, number, node, _⟩ := junction_at keyed renders listed known rule
    rw [← number, laid.node_of_mem mem, node]
  · intro w known i r rule
    obtain ⟨j, mem, number, _, passed, _⟩ := junction_at keyed renders listed known rule
    have own := laid.into_perm mem .pass
    rw [← number, ← passed]
    exact List.perm_singleton.mp own
  · intro w known i within
    obtain ⟨j, mem, number, _, _, failed⟩ :=
      junction_at keyed renders listed known (List.getElem?_eq_getElem within)
    have own := laid.into_perm mem .fail
    rw [← number, ← failed]
    exact List.perm_singleton.mp own
  · have started := target_eq keyed renders listed renders.started
    rw [target] at started
    rw [laid.filter_entry, listed, started]
  · intro e mem other
    rcases laid.target_cases mem with ⟨j, within, _, target⟩ | rfl
    · obtain ⟨site, inside, number⟩ := bijective.surjOn
        (laid.isCondition_iff.mpr ⟨j, within, rfl⟩)
      exact ⟨site, inside, by rw [target, ← number]⟩
    · exact absurd rfl other

end Wiring

end RouteVolume
