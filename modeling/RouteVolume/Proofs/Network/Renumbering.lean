import Mathlib.Data.List.Perm.Basic
import RouteVolume.Proofs.Network.Routes
import RouteVolume.Proofs.Network.Tally

namespace RouteVolume

structure Node.Resembles (n m : Node) : Prop where
  kind : n.kind = m.kind
  narrow : ∀ box passage, n.narrow box passage = m.narrow box passage
  label : n.label.isOk = m.label.isOk

theorem Node.Resembles.refl (n : Node) : n.Resembles n := ⟨rfl, fun _ _ => rfl, rfl⟩

theorem Node.eq_start {n : Node} (kind : n.kind = .start) : n = .start := by
  cases n <;> first | rfl | cases kind

def Edge.renumber (number : Int → Int) (e : Edge) : Edge :=
  ⟨number e.source, number e.target, e.passage⟩

namespace Branch

def renumber (number : Int → Int) (b : Branch) : Branch :=
  ⟨number b.node, b.passage, b.box, b.path.map number⟩

def Within (known : Int → Prop) (b : Branch) : Prop := known b.node ∧ ∀ k ∈ b.path, known k

end Branch

namespace Network

def arrivalsFrom (g : Network) (b : Branch) : List Branch :=
  b :: (g.onward b).attach.flatMap fun ⟨next, _⟩ => g.arrivalsFrom next
termination_by g.unvisited b.path
decreasing_by
  have mem : next ∈ g.onward b := by assumption
  rw [← map_branch_children g ⟨[], b⟩] at mem
  obtain ⟨child, onward, rfl⟩ := List.mem_map.mp mem
  exact unvisited_child_lt onward

theorem arrivalsFrom_eq (g : Network) (b : Branch) :
    g.arrivalsFrom b = b :: (g.onward b).flatMap g.arrivalsFrom := by
  unfold arrivalsFrom
  rw [List.flatMap_subtype (g := g.arrivalsFrom) fun _ _ => rfl, List.unattach_attach]

theorem map_branch_visitsFrom (g : Network) (v : Visit) :
    (g.visitsFrom v).map (·.branch) = g.arrivalsFrom v.branch := by
  induction v using visitsFrom.induct g with
  | case1 v ih =>
    rw [visitsFrom_eq, arrivalsFrom_eq, List.map_cons, List.map_flatMap, ← map_branch_children,
      List.flatMap_map]
    congr 1
    rw [List.flatMap_def, List.flatMap_def, List.map_congr_left ih]

theorem map_branch_visits {g : Network} {edges : List Edge}
    (listed : g.edgesFrom accept = .ok edges) (s : Settings) :
    (g.visits s).map (·.branch) =
      (branches s.domain [accept] edges).flatMap g.arrivalsFrom := by
  obtain ⟨slot, stored, read⟩ := edgesFrom_eq_ok_iff.mp listed
  unfold visits launches
  rw [stored]
  dsimp only
  rw [List.map_flatMap, ← map_branch_spread read [] s.domain [accept], List.flatMap_map]
  simp only [map_branch_visitsFrom]

structure Renumbers (g h : Network) (known : Int → Prop) (number : Int → Int) : Prop where
  injective : ∀ k j, known k → known j → number k = number j → k = j
  missing : ∀ k fault, known k → g.node k = .error fault →
    ∃ other, h.node (number k) = .error other
  node : ∀ k n, known k → g.node k = .ok n → ∃ m, h.node (number k) = .ok m ∧ n.Resembles m
  edges : ∀ k n, known k → g.node k = .ok n →
    ∃ es fs, g.edgesFrom k = .ok es ∧ h.edgesFrom (number k) = .ok fs ∧
      (es.map fun e => (number e.target, e.passage)).Perm (fs.map fun e => (e.target, e.passage)) ∧
      ∀ e ∈ es, known e.target

inductive Parallel (known : Int → Prop) (number : Int → Int) :
    Except Fault Arrival → Except Fault Arrival → Prop
  | fault {left right : Fault} : Parallel known number (.error left) (.error right)
  | region : Parallel known number (.ok .region) (.ok .region)
  | pruned {n m : Node} (box : Box) (label : n.label.isOk = m.label.isOk) :
      Parallel known number (.ok (.pruned n box)) (.ok (.pruned m box))
  | fork {es fs : List Edge} (box : Box)
      (perm : (es.map fun e => (number e.target, e.passage)).Perm
        (fs.map fun e => (e.target, e.passage)))
      (inside : ∀ e ∈ es, known e.target) :
      Parallel known number (.ok (.fork box es)) (.ok (.fork box fs))

theorem exists_fault_of_terminal {g : Network} {b : Branch} {s : Slot}
    (there : g.slot b.node = .ok s) (kind : s.node.kind = .accept ∨ s.node.kind = .reject) :
    ∃ fault, g.arrive b = .error fault := by
  unfold arrive node
  rw [there]
  simp only [Except.map, bind, Except.bind]
  cases node : s.node <;> rw [node] at kind <;> rcases kind with kind | kind <;> cases kind <;>
    exact ⟨_, rfl⟩

theorem parallel_of_refusal {known : Int → Prop} {number : Int → Int} (left right : Except Fault String)
    (one two : String → Fault) :
    Parallel known number (left >>= fun label => .error (one label))
      (right >>= fun label => .error (two label)) := by
  cases left <;> cases right <;> exact .fault

theorem branches_renumber_perm {number : Int → Int} (box : Box) (path : List Int)
    {es fs : List Edge}
    (perm : (es.map fun e => (number e.target, e.passage)).Perm
      (fs.map fun e => (e.target, e.passage))) :
    ((branches box path es).map (·.renumber number)).Perm
      (branches box (path.map number) fs) := by
  have onto := perm.map fun (k, passage) => (⟨k, passage, box, path.map number⟩ : Branch)
  rw [List.map_map, List.map_map] at onto
  unfold branches
  rw [List.map_reverse, List.map_map]
  exact (List.reverse_perm _).trans (onto.trans (List.reverse_perm _).symm)

namespace Renumbers

variable {g h : Network} {known : Int → Prop} {number : Int → Int}
  (renumbers : g.Renumbers h known number)

include renumbers

theorem mem_path_iff {b : Branch} (within : b.Within known) :
    number b.node ∈ b.path.map number ↔ b.node ∈ b.path := by
  constructor
  · intro mem
    obtain ⟨k, inside, same⟩ := List.mem_map.mp mem
    exact renumbers.injective k b.node (within.2 k inside) within.1 same ▸ inside
  · exact List.mem_map_of_mem

theorem parallel {b : Branch} (within : b.Within known) :
    Parallel known number (g.arrive b) (h.arrive (b.renumber number)) := by
  cases there : g.node b.node with
  | error fault =>
    obtain ⟨other, lost⟩ := renumbers.missing b.node fault within.1 there
    unfold arrive
    rw [there, show (b.renumber number).node = number b.node from rfl, lost]
    exact .fault
  | ok n =>
    obtain ⟨m, again, resembles⟩ := renumbers.node b.node n within.1 there
    obtain ⟨es, fs, ofG, ofH, perm, inside⟩ := renumbers.edges b.node n within.1 there
    obtain ⟨s, inG, rfl⟩ := node_eq_ok_iff.mp there
    obtain ⟨t, inH, rfl⟩ := node_eq_ok_iff.mp again
    have located : h.slot (b.renumber number).node = .ok t := inH
    have likewise := resembles.kind
    -- What a report says may differ, as the labels do; that there is one may not.
    cases kind : s.node.kind with
    | condition =>
      rw [kind] at likewise
      rw [arrive_condition inG kind, arrive_condition located likewise.symm]
      simp only [Branch.renumber, renumbers.mem_path_iff within, ← resembles.narrow, ofG, ofH]
      split
      · exact parallel_of_refusal _ _ _ _
      · split
        · exact parallel_of_refusal _ _ _ _
        · cases s.node.narrow b.box b.passage with
          | error fault => exact .fault
          | ok box =>
            simp only [bind, Except.bind]
            split
            · exact .fork box perm inside
            · exact .pruned box resembles.label
    | start =>
      rw [kind] at likewise
      rw [arrive_start inG (Node.eq_start kind), arrive_start located (Node.eq_start likewise.symm)]
      exact .region
    | accept =>
      rw [kind] at likewise
      obtain ⟨_, left⟩ := exists_fault_of_terminal inG (.inl kind)
      obtain ⟨_, right⟩ := exists_fault_of_terminal located (.inl likewise.symm)
      rw [left, right]
      exact .fault
    | reject =>
      rw [kind] at likewise
      obtain ⟨_, left⟩ := exists_fault_of_terminal inG (.inr kind)
      obtain ⟨_, right⟩ := exists_fault_of_terminal located (.inr likewise.symm)
      rw [left, right]
      exact .fault

variable {b : Branch} (within : b.Within known)

include within

theorem arrives_alike :
    (g.failure? b).isSome = (h.failure? (b.renumber number)).isSome ∧
    g.region? b = h.region? (b.renumber number) ∧
    g.prunes b = h.prunes (b.renumber number) ∧
    ((g.onward b).map (·.renumber number)).Perm (h.onward (b.renumber number)) ∧
    ∀ next ∈ g.onward b, next.Within known := by
  have parallel := renumbers.parallel within
  unfold failure? region? prunes onward
  revert parallel
  generalize g.arrive b = left
  generalize h.arrive (b.renumber number) = right
  intro parallel
  cases parallel with
  | fault | region => exact ⟨rfl, rfl, rfl, .nil, nofun⟩
  | @pruned n m box label =>
    refine ⟨?_, rfl, rfl, .nil, nofun⟩
    dsimp only
    cases ofN : n.label <;> cases ofM : m.label <;> rw [ofN, ofM] at label <;>
      first | rfl | cases label
  | fork box perm inside =>
    refine ⟨rfl, rfl, rfl, branches_renumber_perm box (b.node :: b.path) perm, ?_⟩
    intro next mem
    obtain ⟨e, onward, rfl⟩ := List.mem_map.mp (List.mem_reverse.mp mem)
    exact ⟨inside e onward, List.forall_mem_cons.mpr within⟩

theorem arrivalsFrom_perm :
    ((g.arrivalsFrom b).map (·.renumber number)).Perm (h.arrivalsFrom (b.renumber number)) ∧
    ∀ a ∈ g.arrivalsFrom b, a.Within known := by
  induction b using arrivalsFrom.induct g with
  | case1 b ih =>
    obtain ⟨_, _, _, perm, inside⟩ := renumbers.arrives_alike within
    rw [arrivalsFrom_eq, arrivalsFrom_eq]
    constructor
    · rw [List.map_cons, List.map_flatMap]
      refine .cons _ (.trans (.flatMap_left _ fun next mem => (ih next mem (inside next mem)).1) ?_)
      rw [← List.flatMap_map]
      exact perm.flatMap_right _
    · refine List.forall_mem_cons.mpr ⟨within, fun a mem => ?_⟩
      obtain ⟨next, onward, below⟩ := List.mem_flatMap.mp mem
      exact (ih next onward (inside next onward)).2 a below

end Renumbers

theorem result_walk_cases {g : Network} {edges : List Edge}
    (listed : g.edgesFrom accept = .ok edges) (s : Settings) :
    ((∃ fault, (g.walk s).result = .error fault) ∧
        ∃ b ∈ (g.visits s).map (·.branch), g.failure? b ≠ none) ∨
      (g.walk s).result = .ok (((g.visits s).map (·.branch)).filterMap g.region?) ∧
        ∀ b ∈ (g.visits s).map (·.branch), g.failure? b = none := by
  rw [result_walk listed]
  cases found : (g.visits s).findSome? fun v => g.failure? v.branch with
  | some fault =>
    obtain ⟨v, visited, failed⟩ := List.exists_of_findSome?_eq_some found
    refine .inl ⟨⟨fault, rfl⟩, v.branch, List.mem_map_of_mem visited, ?_⟩
    rw [failed]
    exact Option.some_ne_none fault
  | none =>
    refine .inr ⟨?_, List.forall_mem_map.mpr (List.findSome?_eq_none_iff.mp found)⟩
    rw [List.filterMap_map]
    rfl

namespace Renumbers

variable {g h : Network} {known : Int → Prop} {number : Int → Int}
  (renumbers : g.Renumbers h known number)

include renumbers

theorem visits_perm (begins : known accept) (fixed : number accept = accept) {es fs : List Edge}
    (ofG : g.edgesFrom accept = .ok es) (ofH : h.edgesFrom accept = .ok fs)
    (perm : (es.map fun e => (number e.target, e.passage)).Perm
      (fs.map fun e => (e.target, e.passage)))
    (inside : ∀ e ∈ es, known e.target) (s : Settings) :
    (((g.visits s).map (·.branch)).map (·.renumber number)).Perm ((h.visits s).map (·.branch)) ∧
    ∀ b ∈ (g.visits s).map (·.branch), b.Within known := by
  rw [map_branch_visits ofG, map_branch_visits ofH]
  have launched := branches_renumber_perm s.domain [(accept : Int)] perm
  rw [List.map_singleton, fixed] at launched
  have within : ∀ b ∈ branches s.domain [accept] es, b.Within known := by
    intro b mem
    obtain ⟨e, leaves, rfl⟩ := List.mem_map.mp (List.mem_reverse.mp mem)
    exact ⟨inside e leaves, List.forall_mem_singleton.mpr begins⟩
  constructor
  · rw [List.map_flatMap]
    refine .trans (.flatMap_left _ fun b mem => (renumbers.arrivalsFrom_perm (within b mem)).1) ?_
    rw [← List.flatMap_map]
    exact launched.flatMap_right _
  · intro a mem
    obtain ⟨b, begins, below⟩ := List.mem_flatMap.mp mem
    exact (renumbers.arrivalsFrom_perm (within b begins)).2 a below

variable {bs cs : List Branch} (perm : (bs.map (·.renumber number)).Perm cs)
  (within : ∀ b ∈ bs, b.Within known)

include perm within

theorem regions_perm : (bs.filterMap g.region?).Perm (cs.filterMap h.region?) := by
  have alike := List.filterMap_congr fun b mem => (renumbers.arrives_alike (within b mem)).2.1
  rw [alike]
  have found := perm.filterMap h.region?
  rwa [List.filterMap_map] at found

theorem tallied_eq (tally : Tally) : g.tallied tally bs = h.tallied tally cs := by
  have pruned : bs.countP g.prunes = cs.countP h.prunes := by
    rw [← perm.countP_eq h.prunes, List.countP_map]
    exact List.countP_congr fun b mem => by
      rw [(renumbers.arrives_alike (within b mem)).2.2.1, Function.comp_apply]
  have steps := perm.length_eq
  rw [List.length_map] at steps
  unfold tallied
  rw [steps, (renumbers.regions_perm perm within).length_eq, pruned]

theorem exists_failure_iff :
    (∃ b ∈ bs, g.failure? b ≠ none) ↔ ∃ c ∈ cs, h.failure? c ≠ none := by
  have stops (b : Branch) (mem : b ∈ bs) :
      g.failure? b ≠ none ↔ h.failure? (b.renumber number) ≠ none := by
    rw [← Option.isSome_iff_ne_none, (renumbers.arrives_alike (within b mem)).1,
      Option.isSome_iff_ne_none]
  constructor
  · intro ⟨b, mem, failed⟩
    exact ⟨_, perm.mem_iff.mp (List.mem_map_of_mem mem), (stops b mem).mp failed⟩
  · intro ⟨c, mem, failed⟩
    obtain ⟨b, before, rfl⟩ := List.mem_map.mp (perm.mem_iff.mpr mem)
    exact ⟨b, before, (stops b before).mpr failed⟩

omit perm within

theorem walks_alike (begins : known accept) (fixed : number accept = accept) {n : Node}
    (there : g.node accept = .ok n) (s : Settings) :
    ((∃ fault, (g.walk s).result = .error fault) ↔ ∃ fault, (h.walk s).result = .error fault) ∧
    ∀ found more, (g.walk s).result = .ok found → (h.walk s).result = .ok more →
      found.Perm more ∧ (g.walk s).tally = (h.walk s).tally := by
  obtain ⟨es, fs, ofG, ofH, perm, inside⟩ := renumbers.edges accept n begins there
  rw [fixed] at ofH
  obtain ⟨visits, within⟩ := renumbers.visits_perm begins fixed ofG ofH perm inside s
  have failures := renumbers.exists_failure_iff visits within
  rcases result_walk_cases ofG s with ⟨stops, fails⟩ | ⟨finds, fine⟩
  · rcases result_walk_cases ofH s with ⟨again, _⟩ | ⟨_, passes⟩
    · refine ⟨iff_of_true stops again, fun found more one _ => ?_⟩
      obtain ⟨fault, stopped⟩ := stops
      rw [stopped] at one
      cases one
    · obtain ⟨c, mem, failed⟩ := failures.mp fails
      exact absurd (passes c mem) failed
  · rcases result_walk_cases ofH s with ⟨_, fails⟩ | ⟨sees, passes⟩
    · obtain ⟨b, mem, failed⟩ := failures.mpr fails
      exact absurd (fine b mem) failed
    · rw [finds, sees]
      refine ⟨iff_of_false (by simp) (by simp), fun found more one two => ?_⟩
      cases one
      cases two
      refine ⟨renumbers.regions_perm visits within, ?_⟩
      have launched := perm.length_eq
      rw [List.length_map, List.length_map] at launched
      rw [tally_walk ofG (List.forall_mem_map.mp fine),
        tally_walk ofH (List.forall_mem_map.mp passes), launched]
      exact renumbers.tallied_eq visits within _

end Renumbers

end Network

end RouteVolume
