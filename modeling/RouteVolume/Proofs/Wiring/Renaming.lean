import Mathlib.Data.Set.Function
import RouteVolume.Proofs.Network.Renumbering
import RouteVolume.Proofs.RuleBook.Recasting
import RouteVolume.Proofs.Wiring.Arrivals
import RouteVolume.Proofs.Wiring.Meaning

namespace RouteVolume

instance : Nonempty Stage := ⟨.accept⟩

theorem Node.label_isOk (attr : String) (t : Threshold) (workflow other : String) (position : Int) :
    (Node.condition attr t workflow position).label.isOk =
      (Node.condition attr t other position).label.isOk := by
  rw [label, label]
  generalize Numeral.write position = number
  generalize t.text = test
  cases number <;> cases test <;> rfl

theorem RuleBook.length_rules_recast (book : RuleBook) (c : Recasting) :
    (book.recast c).rules.length = book.rules.length := by
  unfold rules
  rw [workflows_recast, List.flatMap_map, List.length_flatMap, List.length_flatMap]
  simp

namespace Wiring

noncomputable def stageAt (book : RuleBook) : Int → Stage :=
  Function.invFunOn (fun s => (nodeOf book s : Int)) {s | book.Holds s}

noncomputable def renumber (book : RuleBook) (c : Recasting) (k : Int) : Int :=
  if k = Network.start then k else nodeOf (book.recast c) (c.stage (stageAt book k))

inductive Placed (book : RuleBook) : Int → Prop
  | start : Placed book Network.start
  | stage {s : Stage} (holds : book.Holds s) : Placed book (nodeOf book s)

theorem renumber_start (book : RuleBook) (c : Recasting) :
    renumber book c Network.start = Network.start := if_pos rfl

namespace Wired

variable {book : RuleBook} {settings : Settings} {wiring : Wiring}
  (wired : Wired book settings wiring)

include wired

theorem stageAt_nodeOf {s : Stage} (holds : book.Holds s) : stageAt book (nodeOf book s) = s := by
  have distinct : Set.InjOn (fun s => (nodeOf book s : Int)) {s | book.Holds s} :=
    fun s left t right same => (wired.nodeOf_eq_iff left right).mp same
  exact distinct.leftInvOn_invFunOn holds

theorem renumber_nodeOf (c : Recasting) {s : Stage} (holds : book.Holds s) :
    renumber book c (nodeOf book s) = nodeOf (book.recast c) (c.stage s) := by
  have elsewhere : ¬ (nodeOf book s : Int) = Network.start :=
    fun same => wired.nodeOf_ne_start holds (Int.natCast_inj.mp same)
  rw [renumber, if_neg elsewhere, wired.stageAt_nodeOf holds]

theorem holds_start : book.Holds (.rule settings.start 0) := by
  obtain ⟨w, found⟩ := Option.isSome_iff_exists.mp wired.image.started
  exact ⟨w, found, Nat.succ_pos _⟩

theorem placed_of_mem_edges {e : Edge} (mem : e ∈ wiring.network.edges) :
    Placed book e.source ∧ Placed book e.target := by
  rcases wired.edge_cases mem with ⟨s, r, t, branches, same⟩ | entry
  · rw [same]
    exact ⟨.stage (wired.holds_target branches), .stage branches.holds_source⟩
  · rw [entry]
    exact ⟨.stage wired.holds_start, .start⟩

theorem lt_size_of_placed {k : Int} (placed : Placed book k) :
    ∃ j : Nat, k = j ∧ j < wiring.network.size := by
  cases placed with
  | start =>
    obtain ⟨slot, stored, _⟩ := wired.slot_start
    exact ⟨_, rfl, (Array.getElem?_eq_some_iff.mp stored).1⟩
  | stage holds =>
    obtain ⟨n, there, _⟩ := wired.kind_of_nodeOf holds
    obtain ⟨slot, stored, _⟩ := Network.exists_slot_of_node there
    exact ⟨_, rfl, (Array.getElem?_eq_some_iff.mp stored).1⟩

end Wired

section Recast

variable {book : RuleBook} {settings : Settings} {c : Recasting} {wiring other : Wiring}
  (wired : Wired book settings wiring)
  (again : Wired (book.recast c) (settings.recast c) other)

include wired again

theorem renumber_injective {k j : Int} (left : Placed book k) (right : Placed book j)
    (same : renumber book c k = renumber book c j) : k = j := by
  cases left with
  | start =>
    cases right with
    | start => rfl
    | stage holds =>
      rw [renumber_start, wired.renumber_nodeOf c holds, Int.natCast_inj] at same
      exact absurd same.symm (again.nodeOf_ne_start holds.recast)
  | stage holds =>
    cases right with
    | start =>
      rw [renumber_start, wired.renumber_nodeOf c holds, Int.natCast_inj] at same
      exact absurd same (again.nodeOf_ne_start holds.recast)
    | stage reached =>
      rw [wired.renumber_nodeOf c holds, wired.renumber_nodeOf c reached, Int.natCast_inj] at same
      rw [c.stage_injective (again.eq_of_nodeOf holds.recast reached.recast same)]

theorem mem_edges_recast {e : Edge} (mem : e ∈ wiring.network.edges) :
    e.renumber (renumber book c) ∈ other.network.edges := by
  unfold Edge.renumber
  rcases wired.edge_cases mem with ⟨s, r, t, branches, same⟩ | entry
  · rw [same, wired.renumber_nodeOf c branches.holds_source,
      wired.renumber_nodeOf c (wired.holds_target branches)]
    exact again.mem_edges_of_branches branches.recast
  · have listed : (⟨numberAt (book.recast c) (c.name settings.start) 0, Network.start, .entry⟩ :
        Edge) ∈ other.network.edges.toList.filter (fun e => e.passage = .entry) := by
      rw [again.image.entry]
      exact List.mem_singleton_self _
    have source := wired.renumber_nodeOf c wired.holds_start
    rw [nodeOf] at source
    rw [entry, source, renumber_start]
    exact Array.mem_toList_iff.mp (List.mem_of_mem_filter listed)

theorem edges_recast_perm (distinct : wiring.network.edges.toList.Nodup) :
    (wiring.network.edges.toList.map (·.renumber (renumber book c))).Perm
      other.network.edges.toList := by
  -- The new edges are distinct and belong to the other network, which has no more edges than these.
  refine List.Subperm.perm_of_length_le (List.subperm_of_subset (distinct.map_on ?_) ?_) ?_
  · intro e left d right same
    obtain ⟨source, target⟩ := wired.placed_of_mem_edges (Array.mem_toList_iff.mp left)
    obtain ⟨from_, into⟩ := wired.placed_of_mem_edges (Array.mem_toList_iff.mp right)
    obtain ⟨sources, targets, passage⟩ := Edge.mk.inj same
    have one := renumber_injective wired again source from_ sources
    have two := renumber_injective wired again target into targets
    cases e
    cases d
    cases one
    cases two
    cases passage
    rfl
  · intro d mem
    obtain ⟨e, inside, rfl⟩ := List.mem_map.mp mem
    exact Array.mem_toList_iff.mpr
      (mem_edges_recast wired again (Array.mem_toList_iff.mp inside))
  · rw [List.length_map, Array.length_toList, Array.length_toList, wired.image.edgeCount,
      again.image.edgeCount, RuleBook.length_rules_recast]

theorem edgesFrom_recast (distinct : wiring.network.edges.toList.Nodup) {k : Int}
    (placed : Placed book k) :
    ∃ es fs, wiring.network.edgesFrom k = .ok es ∧
      other.network.edgesFrom (renumber book c k) = .ok fs ∧
      (es.map fun e => (renumber book c e.target, e.passage)).Perm
        (fs.map fun e => (e.target, e.passage)) ∧
      ∀ e ∈ es, Placed book e.target := by
  have renumbered : Placed (book.recast c) (renumber book c k) := by
    cases placed with
    | start => exact renumber_start book c ▸ .start
    | stage holds => exact wired.renumber_nodeOf c holds ▸ .stage holds.recast
  obtain ⟨i, rfl, known⟩ := wired.lt_size_of_placed placed
  obtain ⟨j, place, reached⟩ := again.lt_size_of_placed renumbered
  rw [place]
  refine ⟨_, _, wired.indexed.edgesFrom_eq known, again.indexed.edgesFrom_eq reached, ?_, ?_⟩
  · have leaving := (edges_recast_perm wired again distinct).filter fun e => e.source = (j : Int)
    have same : wiring.network.edges.toList.filter
        ((fun e => decide (e.source = (j : Int))) ∘ (·.renumber (renumber book c))) =
        wiring.network.edges.toList.filter fun e => e.source = (i : Int) := by
      apply List.filter_congr
      intro e mem
      have source := (wired.placed_of_mem_edges (Array.mem_toList_iff.mp mem)).1
      rw [Function.comp_apply, decide_eq_decide, ← place]
      exact ⟨renumber_injective wired again source placed, congrArg (renumber book c)⟩
    rw [List.filter_map, same] at leaving
    have ends := leaving.map fun e => (e.target, e.passage)
    rwa [List.map_map] at ends
  · intro e mem
    exact (wired.placed_of_mem_edges (Array.mem_toList_iff.mp (List.mem_of_mem_filter mem))).2

theorem node_recast_of_end {k : Nat} (early : k < 3) {n : Node}
    (there : wiring.network.node k = .ok n) : other.network.node k = .ok n := by
  rw [Network.node_natCast_iff, wired.node_of_end early] at there
  rw [Network.node_natCast_iff, again.node_of_end early, there]

theorem resembles_recast (kept : c.swapped = false) {k : Int} {n : Node} (placed : Placed book k)
    (there : wiring.network.node k = .ok n) :
    ∃ m, other.network.node (renumber book c k) = .ok m ∧ n.Resembles m := by
  cases placed with
  | start =>
    rw [renumber_start]
    exact ⟨n, node_recast_of_end wired again (by decide) there, .refl n⟩
  | @stage s holds =>
    rw [wired.renumber_nodeOf c holds]
    cases s with
    | rule name i =>
      obtain ⟨w, found, within⟩ := holds
      have rule := List.getElem?_eq_getElem within
      have ofBook := Network.node_natCast_iff.mpr (wired.node_of_rule found rule)
      have ofRecast := Network.node_natCast_iff.mpr
        (again.node_of_rule (i := i) (r := w.rules[i].recast c) (RuleBook.get?_recast_of found)
          (by simp [rule]))
      obtain rfl := Except.ok.inj (there.symm.trans ofBook)
      exact ⟨_, ofRecast, rfl, fun _ _ => rfl, Node.label_isOk ..⟩
    | accept =>
      have stays : c.stage .accept = .accept := by simp [Recasting.stage, kept]
      rw [stays]
      exact ⟨n, node_recast_of_end wired again (k := Network.accept) (by decide) there, .refl n⟩
    | reject =>
      have stays : c.stage .reject = .reject := by simp [Recasting.stage, kept]
      rw [stays]
      exact ⟨n, node_recast_of_end wired again (k := Network.reject) (by decide) there, .refl n⟩

theorem renumbers_recast (kept : c.swapped = false)
    (distinct : wiring.network.edges.toList.Nodup) :
    wiring.network.Renumbers other.network (Placed book) (renumber book c) where
  injective := fun k j left right same => renumber_injective wired again left right same
  missing := by
    intro k fault placed lost
    obtain ⟨j, rfl, known⟩ := wired.lt_size_of_placed placed
    obtain ⟨slot, there⟩ := Network.slot_of_size known
    rw [Network.node_eq_ok_iff.mpr ⟨slot, there, rfl⟩] at lost
    cases lost
  node := fun k n placed there => resembles_recast wired again kept placed there
  edges := fun k n placed _ => edgesFrom_recast wired again distinct placed

end Recast

theorem walks_recast_alike {book : RuleBook} {settings : Settings} {c : Recasting}
    {wiring other : Wiring} (keyed : book.Keyed) (kept : c.swapped = false)
    (made : ofRuleBook book settings = .ok wiring)
    (remade : ofRuleBook (book.recast c) (settings.recast c) = .ok other) :
    ((∃ fault, (wiring.network.walk settings).result = .error fault) ↔
      ∃ fault, (other.network.walk (settings.recast c)).result = .error fault) ∧
    ∀ found more, (wiring.network.walk settings).result = .ok found →
      (other.network.walk (settings.recast c)).result = .ok more →
      found.Perm more ∧
        (wiring.network.walk settings).tally = (other.network.walk (settings.recast c)).tally := by
  have wired := wired_of_ofRuleBook keyed made
  have again := wired_of_ofRuleBook keyed.recast remade
  have distinct := (renders_of_ofRuleBook keyed made).laid.nodup_entrances.of_map
  have accepts : wiring.network.node Network.accept = .ok .accept :=
    Network.node_natCast_iff.mpr (wired.node_of_end (by decide))
  have stays : c.stage .accept = .accept := by simp [Recasting.stage, kept]
  have fixed : renumber book c Network.accept = Network.accept := by
    have moved := wired.renumber_nodeOf c (s := .accept) trivial
    rwa [stays] at moved
  exact (renumbers_recast wired again kept distinct).walks_alike (.stage (s := .accept) trivial)
    fixed accepts settings

end Wiring

end RouteVolume
