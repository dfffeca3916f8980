import Mathlib
import RouteVolume.Proofs.Wiring.Image

namespace RouteVolume

def Node.destination? : Node → Option Destination
  | .accept => some .accept
  | .reject => some .reject
  | .condition _ _ workflow _ => some (.workflow workflow)
  | _ => none

def Node.isAt (name : String) (position : Nat) : Node → Bool
  | .condition _ _ workflow place => workflow = name ∧ place = position
  | _ => false

def Node.rule? (d : Destination) : Node → Option Rule
  | .condition attr threshold _ _ => some ⟨attr, threshold, d⟩
  | _ => none

namespace Network

def numberOf? (g : Network) (name : String) (position : Nat) : Option Nat :=
  (List.range g.size).find? fun k => g.nodes[k]?.any (Node.isAt name position)

def origin? (g : Network) (p : Passage) (k : Nat) : Option Destination := do
  let e ← (g.into k p).head?
  let node ← g.nodes[e.source.toNat]?
  node.destination?

def rule? (g : Network) (name : String) (position : Nat) : Option Rule := do
  let k ← g.numberOf? name position
  let node ← g.nodes[k]?
  let d ← g.origin? .pass k
  node.rule? d

def rules (g : Network) (name : String) : List Rule :=
  (List.range g.size).filterMap (g.rule? name)

def default? (g : Network) (name : String) (last : Nat) : Option Destination :=
  (g.numberOf? name last).bind (g.origin? .fail)

/-- The workflow of which a network has the rules, without the place where it was written. -/
def workflow? (g : Network) (name : String) : Option Workflow :=
  match g.rules name with
  | [] => none
  | first :: rest => (g.default? name rest.length).map fun default => { name, first, rest, default }

def startName? (g : Network) : Option String := do
  let d ← g.origin? .entry start
  d.name?

end Network

namespace Wiring.Image

variable {book : RuleBook} {settings : Settings} {wiring : Wiring} {number : String → Nat → Nat}

theorem mem_sites_iff (keyed : book.Keyed) {w : Workflow} (known : w ∈ book.workflows) {i : Nat} :
    (w.name, i) ∈ book.sites ↔ i < w.rules.length := by
  constructor
  · intro ⟨v, found, within⟩
    rw [keyed.get?_name known] at found
    exact Option.some.inj found ▸ within
  · intro within
    exact ⟨w, keyed.get?_name known, within⟩

theorem node_at (image : Image book settings wiring number) (keyed : book.Keyed)
    {site : String × Nat} (mem : site ∈ book.sites) :
    ∃ r, wiring.network.nodes[number site.1 site.2]? = some (.ofRule r site.1 site.2) := by
  obtain ⟨w, found, within⟩ := mem
  have known : w ∈ book.workflows := List.mem_map_of_mem (RuleBook.get?_eq_some_iff.mp found)
  have node := image.node w known site.2 _ (List.getElem?_eq_getElem within)
  rw [keyed.name_eq found] at node
  exact ⟨_, node⟩

theorem eq_number (image : Image book settings wiring number) (keyed : book.Keyed) {k : Nat}
    {n : Node} (stored : wiring.network.nodes[k]? = some n) {name : String} {position : Nat}
    (marked : n.isAt name position = true) :
    (name, position) ∈ book.sites ∧ k = number name position := by
  have condition : wiring.network.IsCondition k := by
    refine ⟨n, stored, ?_⟩
    cases n <;> first | rfl | cases marked
  obtain ⟨⟨other, place⟩, mem, rfl⟩ := image.sites.surjOn condition
  obtain ⟨r, node⟩ := image.node_at keyed mem
  rw [stored] at node
  obtain rfl := Option.some.inj node
  obtain ⟨rfl, same⟩ := of_decide_eq_true marked
  obtain rfl := Int.natCast_inj.mp same
  exact ⟨mem, rfl⟩

theorem numberOf?_eq (image : Image book settings wiring number) (keyed : book.Keyed)
    {site : String × Nat} (mem : site ∈ book.sites) :
    wiring.network.numberOf? site.1 site.2 = some (number site.1 site.2) := by
  obtain ⟨r, node⟩ := image.node_at keyed mem
  have known : number site.1 site.2 < wiring.network.size := by
    rw [← Network.length_nodes]
    exact (List.getElem?_eq_some_iff.mp node).1
  have there : (wiring.network.nodes[number site.1 site.2]?).any (Node.isAt site.1 site.2) = true := by
    rw [node]
    simp [Node.isAt, Node.ofRule]
  unfold Network.numberOf?
  cases found : (List.range wiring.network.size).find? fun k =>
      wiring.network.nodes[k]?.any (Node.isAt site.1 site.2) with
  | none =>
    have never := List.find?_eq_none.mp found _ (List.mem_range.mpr known)
    exact absurd there never
  | some k =>
    have marked := List.find?_some found
    obtain ⟨n, stored, marked⟩ := (Option.any_eq_true _ _).mp marked
    rw [(image.eq_number keyed stored marked).2]

theorem numberOf?_eq_none (image : Image book settings wiring number) (keyed : book.Keyed)
    {name : String} {position : Nat} (absent : (name, position) ∉ book.sites) :
    wiring.network.numberOf? name position = none := by
  apply List.find?_eq_none.mpr
  intro k _ there
  obtain ⟨n, stored, marked⟩ := (Option.any_eq_true _ _).mp there
  exact absent (image.eq_number keyed stored marked).1

theorem first_mem_sites {name : String} (started : book.Resolves (.workflow name)) :
    (name, 0) ∈ book.sites := by
  obtain ⟨w, found⟩ := Option.isSome_iff_exists.mp started
  exact ⟨w, found, Nat.succ_pos _⟩

theorem destination?_target (image : Image book settings wiring number) (keyed : book.Keyed)
    {d : Destination} (resolves : book.Resolves d) :
    ∃ n, wiring.network.nodes[target number d]? = some n ∧ n.destination? = some d := by
  have ends (k : Nat) (early : k < 3) : wiring.network.nodes[k]? =
      ([.reject, .accept, .start] : List Node)[k]? := by
    rw [← image.ends, List.getElem?_take_of_lt early]
  cases d with
  | accept => exact ⟨.accept, ends 1 (by decide), rfl⟩
  | reject => exact ⟨.reject, ends 0 (by decide), rfl⟩
  | workflow name =>
    obtain ⟨r, node⟩ := image.node_at keyed (first_mem_sites resolves)
    exact ⟨_, node, rfl⟩

theorem origin?_eq (image : Image book settings wiring number) (keyed : book.Keyed)
    {d : Destination} (resolves : book.Resolves d) {k j : Nat} {p : Passage}
    (into : wiring.network.into k p = [⟨target number d, j, p⟩]) :
    wiring.network.origin? p k = some d := by
  obtain ⟨n, stored, leads⟩ := image.destination?_target keyed resolves
  simp only [Network.origin?, into, List.head?_cons, Int.toNat_natCast, stored, bind,
    Option.bind_some, leads]

theorem rule?_eq (image : Image book settings wiring number) (keyed : book.Keyed) {w : Workflow}
    (known : w ∈ book.workflows) (i : Nat) :
    wiring.network.rule? w.name i = w.rules[i]? := by
  cases rule : w.rules[i]? with
  | none =>
    have absent : (w.name, i) ∉ book.sites := by
      rw [mem_sites_iff keyed known]
      exact Nat.not_lt.mpr (List.getElem?_eq_none_iff.mp rule)
    simp only [Network.rule?, image.numberOf?_eq_none keyed absent, bind, Option.bind_none]
  | some r =>
    have within := (List.getElem?_eq_some_iff.mp rule).1
    have resolves := image.resolves w known _ (destination_mem (List.mem_of_getElem? rule))
    have there := image.numberOf?_eq keyed ((mem_sites_iff keyed known).mpr within)
    have origin := image.origin?_eq keyed resolves (image.pass w known i r rule)
    have node := image.node w known i r rule
    dsimp only at there
    simp only [Network.rule?, there, node, origin, bind, Option.bind_some]
    rfl

theorem rules_eq (image : Image book settings wiring number) (keyed : book.Keyed) {w : Workflow}
    (known : w ∈ book.workflows) : wiring.network.rules w.name = w.rules := by
  have few : w.rules.length ≤ wiring.network.size := by
    rw [image.size, RuleBook.rules, List.length_flatMap]
    have := List.single_le_sum (fun _ _ => Nat.zero_le _) _
      (List.mem_map_of_mem (f := fun w : Workflow => w.rules.length) known)
    omega
  have read : wiring.network.rule? w.name = (w.rules[·]?) := funext (image.rule?_eq keyed known)
  rw [Network.rules, read, filterMap_getElem?_range w.rules few]

theorem default?_eq (image : Image book settings wiring number) (keyed : book.Keyed) {w : Workflow}
    (known : w ∈ book.workflows) :
    wiring.network.default? w.name w.rest.length = some w.default := by
  have length : w.rules.length = w.rest.length + 1 := rfl
  have within : w.rest.length < w.rules.length := by omega
  have there := image.numberOf?_eq keyed ((mem_sites_iff keyed known).mpr within)
  have failing := image.fail w known _ within
  rw [onFail, if_neg (by omega)] at failing
  have resolves := image.resolves w known _ (List.mem_append_right _ (List.mem_singleton_self _))
  dsimp only at there
  rw [Network.default?, there, Option.bind_some, image.origin?_eq keyed resolves failing]

theorem workflow?_eq (image : Image book settings wiring number) (keyed : book.Keyed)
    (name : String) : wiring.network.workflow? name =
      (book.get? name).map fun w => { w with span := none } := by
  unfold Network.workflow?
  cases found : book.get? name with
  | none =>
    have empty : wiring.network.rules name = [] := by
      apply List.filterMap_eq_nil_iff.mpr
      intro i _
      have absent : (name, i) ∉ book.sites := fun ⟨w, stored, _⟩ => by
        rw [found] at stored
        cases stored
      simp only [Network.rule?, image.numberOf?_eq_none keyed absent, bind, Option.bind_none]
    rw [empty, Option.map_none]
  | some w =>
    have known : w ∈ book.workflows := List.mem_map_of_mem (RuleBook.get?_eq_some_iff.mp found)
    rw [← keyed.name_eq found, image.rules_eq keyed known, Workflow.rules]
    simp only [image.default?_eq keyed known, Option.map_some]

theorem startName?_eq (image : Image book settings wiring number) (keyed : book.Keyed) :
    wiring.network.startName? = some settings.start := by
  have into : wiring.network.into Network.start .entry =
      [⟨target number (.workflow settings.start), Network.start, .entry⟩] := by
    have only := congrArg (List.filter fun e => e.target = (Network.start : Int)) image.entry
    rw [List.filter_filter, List.filter_singleton] at only
    simpa [Network.into, target] using only
  simp only [Network.startName?, image.origin?_eq keyed image.started into, bind,
    Option.bind_some]
  rfl

end Wiring.Image

/-- The network of a rule book is an image of its rules and the start, so that the workflows and the
name of the start can be read back from it. -/
theorem Wiring.ofRuleBook_faithful {made : List (Except Fault Workflow)} {book : RuleBook}
    {settings : Settings} {wiring : Wiring} (defined : RuleBook.ofWorkflows made = .ok book)
    (wired : ofRuleBook book settings = .ok wiring) :
    (∃ number, Image book settings wiring number) ∧
    (∀ name, wiring.network.workflow? name =
      (book.get? name).map fun w => { w with span := none }) ∧
    wiring.network.startName? = some settings.start := by
  have keyed := RuleBook.keyed_ofWorkflows defined
  have image := image_of_ofRuleBook keyed wired
  exact ⟨⟨_, image⟩, image.workflow?_eq keyed, image.startName?_eq keyed⟩

/-- Two workflows; the first routes to itself, and to the second from two places. -/
def Wiring.looping : RuleBook where
  entries := [
    ("in", ⟨"in", ⟨"x", .below 3, .workflow "low"⟩,
      [⟨"m", .above 2, .accept⟩, ⟨"x", .above 9, .workflow "in"⟩], .workflow "low", none⟩),
    ("low", ⟨"low", ⟨"m", .below 2, .accept⟩, [], .reject, some { line := 2 }⟩)]
  distinct := by decide

theorem Wiring.looping_recovers : ∃ wiring, ofRuleBook looping {} = .ok wiring ∧
    (∃ number, Image looping {} wiring number) ∧ wiring.network.size = 7 ∧
    wiring.network.startName? = some "in" ∧ wiring.network.workflow? "low" =
      some ⟨"low", ⟨"m", .below 2, .accept⟩, [], .reject, none⟩ := by
  have defined : RuleBook.ofWorkflows (looping.workflows.map .ok) = .ok looping := rfl
  have returns : (ofRuleBook looping {}).isOk = true := by cbv
  cases wired : ofRuleBook looping {} with
  | error fault =>
    rw [wired] at returns
    cases returns
  | ok wiring =>
    obtain ⟨⟨number, image⟩, workflows, start⟩ := ofRuleBook_faithful defined wired
    exact ⟨wiring, rfl, ⟨number, image⟩, image.size, start, workflows "low"⟩

end RouteVolume
