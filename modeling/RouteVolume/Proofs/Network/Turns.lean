import Mathlib.Data.List.Perm.Subperm
import RouteVolume.Proofs.Network.Safety

namespace RouteVolume

structure Course where
  stack : List Branch
  walk : Walk

namespace Network

/-- The next turn of a walk, unless no branch waits or a fault has stopped it. -/
def turn? (g : Network) (c : Course) : Option Course :=
  match c.stack, c.walk.fault? with
  | b :: rest, none => some ⟨g.onward b ++ rest, g.handle c.walk b⟩
  | _, _ => none

/-- One course comes of the other in some number of turns. -/
def TurnsTo (g : Network) : Course → Course → Prop :=
  Relation.ReflTransGen fun c d => g.turn? c = some d

/-- The course of a walk before its first turn. -/
def opening (s : Settings) (edges : List Edge) : Course where
  stack := branches s.domain [accept] edges
  walk := { tally := { launched := edges.length } }

def conditions (g : Network) : Nat := g.nodes.countP fun n => n.kind = .condition

variable {g : Network}

theorem turn?_eq_some_iff {c d : Course} :
    g.turn? c = some d ↔ ∃ b rest, c.stack = b :: rest ∧ c.walk.fault? = none ∧
      d = ⟨g.onward b ++ rest, g.handle c.walk b⟩ := by
  unfold turn?
  cases c.stack with
  | nil => simp
  | cons b rest =>
    cases c.walk.fault? with
    | some fault => simp
    | none => simp [eq_comm]

theorem pending_turn_lt {c d : Course} (turned : g.turn? c = some d) :
    g.pending d.stack < g.pending c.stack := by
  obtain ⟨b, rest, stack, _, rfl⟩ := turn?_eq_some_iff.mp turned
  rw [stack]
  exact g.pending_onward_lt b rest

def outcome (g : Network) (c : Course) : Walk :=
  if c.walk.fault? = none then g.follow c.stack c.walk else c.walk

theorem outcome_of_turn {c d : Course} (turned : g.turn? c = some d) :
    g.outcome c = g.outcome d := by
  obtain ⟨b, rest, stack, running, rfl⟩ := turn?_eq_some_iff.mp turned
  have handled := fault?_handle running b (g := g)
  rw [outcome, outcome, if_pos running, stack, follow_cons running]
  cases failed : g.failure? b with
  | none => rw [if_pos (handled.trans failed)]
  | some fault => rw [if_neg (by simp [handled, failed])]

theorem outcome_of_last {c : Course} (final : g.turn? c = none) : g.outcome c = c.walk := by
  unfold outcome
  split
  · rename_i running
    cases stack : c.stack with
    | nil => rw [follow]
    | cons b rest =>
      rw [turn?, stack, running] at final
      cases final
  · rfl

theorem exists_last (g : Network) (c : Course) :
    ∃ last, g.TurnsTo c last ∧ g.turn? last = none ∧ last.walk = g.outcome c := by
  -- Turn after turn, what is still pending gets less, so there is a last turn.
  induction size : g.pending c.stack using Nat.strongRecOn generalizing c with
  | ind n ih =>
    cases turned : g.turn? c with
    | none => exact ⟨c, .refl, turned, (outcome_of_last turned).symm⟩
    | some next =>
      obtain ⟨last, later, final, same⟩ := ih _ (size ▸ pending_turn_lt turned) next rfl
      exact ⟨last, .head turned later, final, same.trans (outcome_of_turn turned).symm⟩

theorem onward_cases {b next : Branch} (mem : next ∈ g.onward b) :
    (∃ e ∈ g.edges, e.target = next.node) ∧ next.path = b.node :: b.path ∧ b.node ∉ b.path ∧
      ∃ n, g.node b.node = .ok n ∧ n.kind = .condition := by
  unfold onward at mem
  split at mem
  · rename_i forked
    obtain ⟨s, there, arrived⟩ := arrived_of_arrive forked
    obtain ⟨e, leaves, rfl⟩ := List.mem_map.mp (List.mem_reverse.mp mem)
    cases arrived with
    | fork kind fresh _ _ _ listed =>
      obtain ⟨_, _, read⟩ := edgesFrom_eq_ok_iff.mp listed
      exact ⟨⟨e, mem_edges_of_mapM_edge read leaves, rfl⟩, rfl, fresh, s.node,
        node_eq_ok_iff.mpr ⟨s, there, rfl⟩, kind⟩
  · cases mem

structure Traced (g : Network) (b : Branch) : Prop where
  target : ∃ e ∈ g.edges, e.target = b.node
  distinct : b.path.Nodup
  passed : ∃ passed, b.path = passed ++ [(accept : Int)] ∧ ∀ k ∈ passed,
    (∃ e ∈ g.edges, e.target = k) ∧ ∃ n, g.node k = .ok n ∧ n.kind = .condition

theorem Traced.onward {b next : Branch} (traced : g.Traced b) (mem : next ∈ g.onward b) :
    g.Traced next := by
  obtain ⟨target, path, fresh, there⟩ := onward_cases mem
  obtain ⟨passed, same, conditions⟩ := traced.passed
  refine ⟨target, path ▸ List.nodup_cons.mpr ⟨fresh, traced.distinct⟩, b.node :: passed, ?_, ?_⟩
  · rw [path, same, List.cons_append]
  · exact List.forall_mem_cons.mpr ⟨⟨traced.target, there⟩, conditions⟩

theorem traced_opening {edges : List Edge} (listed : g.edgesFrom accept = .ok edges) (s : Settings) :
    ∀ b ∈ (opening s edges).stack, g.Traced b := by
  intro b mem
  obtain ⟨_, _, read⟩ := edgesFrom_eq_ok_iff.mp listed
  obtain ⟨e, leaves, rfl⟩ := List.mem_map.mp (List.mem_reverse.mp mem)
  exact ⟨⟨e, mem_edges_of_mapM_edge read leaves, rfl⟩, List.nodup_singleton _, [], rfl, nofun⟩

theorem TurnsTo.traced {c d : Course} (turns : g.TurnsTo c d) (traced : ∀ b ∈ c.stack, g.Traced b) :
    ∀ b ∈ d.stack, g.Traced b := by
  induction turns with
  | refl => exact traced
  | tail _ turned ih =>
    obtain ⟨b, rest, stack, _, rfl⟩ := turn?_eq_some_iff.mp turned
    rw [stack] at ih
    obtain ⟨first, others⟩ := List.forall_mem_cons.mp ih
    exact List.forall_mem_append.mpr ⟨fun next mem => first.onward mem, others⟩

def conditionPlaces (g : Network) : List Nat :=
  (g.nodes.zipIdx.filter fun (n, _) => n.kind = .condition).map (·.2)

theorem length_conditionPlaces (g : Network) : g.conditionPlaces.length = g.conditions := by
  have nodes : g.nodes.zipIdx.map (·.1) = g.nodes := List.zipIdx_map_fst 0 g.nodes
  unfold conditionPlaces conditions
  rw [List.length_map, ← List.countP_eq_length_filter]
  conv_rhs => rw [← nodes, List.countP_map]
  rfl

theorem exists_conditionPlace {k : Int} {n : Node} (there : g.node k = .ok n)
    (kind : n.kind = .condition) :
    ∃ j ∈ g.conditionPlaces, j < g.size ∧ (k = j ∨ k = j - g.size) := by
  obtain ⟨s, stored, rfl⟩ := node_eq_ok_iff.mp there
  obtain ⟨j, points, found⟩ := slot_eq_ok_iff.mp stored
  refine ⟨j, List.mem_map.mpr ⟨(s.node, j), ?_, rfl⟩, place_eq_ok_iff.mp points⟩
  refine List.mem_filter.mpr ⟨List.mem_zipIdx_iff_getElem?.mpr ?_, decide_eq_true kind⟩
  rw [nodes, List.getElem?_map, Array.getElem?_toList, found, Option.map_some]

theorem Traced.length_le {b : Branch} {passed : List Int} (traced : g.Traced b)
    (path : b.path = passed ++ [(accept : Int)]) :
    passed.length ≤ 2 * g.conditions ∧
      ((∀ e ∈ g.edges, 0 ≤ e.target) → passed.length ≤ g.conditions) := by
  -- A branch passes no more conditions than there are. One whose place is also counted from the
  -- back has two numbers.
  obtain ⟨distinct, _⟩ := List.nodup_append.mp (path ▸ traced.distinct)
  obtain ⟨others, same, conditions⟩ := traced.passed
  obtain rfl : passed = others := List.append_cancel_right (path.symm.trans same)
  constructor
  · have within : passed ⊆ List.map (fun (j : Nat) => (j : Int)) g.conditionPlaces ++
        List.map (fun (j : Nat) => (j : Int) - g.size) g.conditionPlaces := by
      intro k mem
      obtain ⟨_, n, there, kind⟩ := conditions k mem
      obtain ⟨j, place, _, rfl | rfl⟩ := exists_conditionPlace there kind
      · exact List.mem_append_left _ (List.mem_map_of_mem place)
      · exact List.mem_append_right _ (List.mem_map_of_mem place)
    have fewer := (distinct.subperm within).length_le
    rw [List.length_append, List.length_map, List.length_map, length_conditionPlaces] at fewer
    omega
  · intro front
    have within : passed ⊆ List.map (fun (j : Nat) => (j : Int)) g.conditionPlaces := by
      intro k mem
      obtain ⟨⟨e, stored, target⟩, n, there, kind⟩ := conditions k mem
      obtain ⟨j, place, known, rfl | rfl⟩ := exists_conditionPlace there kind
      · exact List.mem_map_of_mem place
      · have positive := front e stored
        omega
    have fewer := (distinct.subperm within).length_le
    rwa [List.length_map, length_conditionPlaces] at fewer

theorem turn_cases {c d : Course} (turned : g.turn? c = some d) :
    ∃ b rest pushed, c.stack = b :: rest ∧ d.stack = pushed ++ rest ∧
      ∀ next ∈ pushed, next.path = b.node :: b.path ∧ b.node ∉ b.path := by
  obtain ⟨b, rest, stack, _, rfl⟩ := turn?_eq_some_iff.mp turned
  refine ⟨b, rest, g.onward b, stack, rfl, fun next mem => ?_⟩
  obtain ⟨_, path, fresh, _⟩ := onward_cases mem
  exact ⟨path, fresh⟩

theorem result_of_turn?_eq_none {c : Course} (final : g.turn? c = none) :
    (∃ fault, c.walk.result = .error fault) ∨
      c.stack = [] ∧ ∃ regions, c.walk.result = .ok regions := by
  unfold Walk.result
  cases stopped : c.walk.fault? with
  | some fault => exact .inl ⟨fault, rfl⟩
  | none =>
    refine .inr ⟨?_, _, rfl⟩
    cases stack : c.stack with
    | nil => rfl
    | cons b rest =>
      rw [turn?, stack, stopped] at final
      cases final

/-- The walk through any network comes to an end, with its regions or with a fault. A branch never
comes to one number twice, and passes at most as many conditions as there are, or twice as many where
targets of edges are counted from the back, so that a condition may be passed under both of its
numbers. -/
theorem walk_ends {g : Network} (assembled : g.Assembled) (s : Settings) :
    ∃ edges, g.edgesFrom accept = .ok edges ∧
      (∃ last, g.TurnsTo (opening s edges) last ∧ g.turn? last = none ∧ last.walk = g.walk s ∧
        ((∃ fault, last.walk.result = .error fault) ∨
          last.stack = [] ∧ ∃ regions, last.walk.result = .ok regions)) ∧
      ∀ c, g.TurnsTo (opening s edges) c →
        (∀ b ∈ c.stack, b.path.Nodup ∧ ∃ passed, b.path = passed ++ [(accept : Int)] ∧
          (∀ k ∈ passed, ∃ n, g.node k = .ok n ∧ n.kind = .condition) ∧
          passed.length ≤ 2 * g.conditions ∧
          ((∀ e ∈ g.edges, 0 ≤ e.target) →
            (∀ k ∈ b.path, 0 ≤ k ∧ k < g.size) ∧ passed.length ≤ g.conditions)) ∧
        ∀ d, g.turn? c = some d → ∃ b rest pushed, c.stack = b :: rest ∧ d.stack = pushed ++ rest ∧
          ∀ next ∈ pushed, next.path = b.node :: b.path ∧ b.node ∉ b.path := by
  have known : accept < g.size := Nat.lt_of_lt_of_le (by decide) (three_le_size assembled)
  obtain ⟨slot, there⟩ := slot_of_size known
  obtain ⟨edges, listed⟩ := assembled.listed.edgesFrom_returns there
  obtain ⟨last, turns, final, reached⟩ := g.exists_last (opening s edges)
  refine ⟨edges, listed, ⟨last, turns, final, ?_, result_of_turn?_eq_none final⟩, fun c turns => ?_⟩
  · rw [reached, outcome, if_pos (by rfl), walk_eq_follow listed]
    rfl
  · refine ⟨fun b mem => ?_, fun d turned => turn_cases turned⟩
    have traced := turns.traced (traced_opening listed s) b mem
    obtain ⟨passed, path, conditions⟩ := traced.passed
    obtain ⟨fewer, fewest⟩ := traced.length_le path
    refine ⟨traced.distinct, passed, path, fun k mem => (conditions k mem).2, fewer, fun front => ?_⟩
    refine ⟨fun k mem => ?_, fewest front⟩
    rw [path, List.mem_append] at mem
    rcases mem with inside | first
    · obtain ⟨⟨e, stored, rfl⟩, n, located, _⟩ := conditions k inside
      obtain ⟨_, found, _⟩ := node_eq_ok_iff.mp located
      exact ⟨front e stored, (mem_numbers.mp (mem_numbers_of_slot found)).2⟩
    · rw [List.mem_singleton.mp first]
      omega

theorem looped_and_doubled_end :
    (∃ last fault, looped.turn? last = none ∧ last.walk = looped.walk line ∧
      last.walk.result = .error fault) ∧
    ∃ last regions, doubled.turn? last = none ∧ last.walk = doubled.walk line ∧
      last.stack = [] ∧ last.walk.result = .ok regions := by
  have stopped : (looped.walk line).fault? ≠ none := by decide +kernel
  have running : (doubled.walk line).fault? = none := by decide +kernel
  constructor
  · obtain ⟨_, _, ⟨last, _, final, same, ended⟩, _⟩ := walk_ends aimed_looped.assembled line
    rcases ended with ⟨fault, failed⟩ | ⟨_, regions, returned⟩
    · exact ⟨last, fault, final, same, failed⟩
    · rw [same, Walk.result] at returned
      split at returned
      · rename_i none_
        exact absurd none_ stopped
      · cases returned
  · obtain ⟨_, _, ⟨last, _, final, same, ended⟩, _⟩ := walk_ends assembled_doubled line
    rcases ended with ⟨fault, failed⟩ | ⟨empty, regions, returned⟩
    · rw [same, Walk.result, running] at failed
      cases failed
    · exact ⟨last, regions, final, same, empty, returned⟩

end Network

end RouteVolume
