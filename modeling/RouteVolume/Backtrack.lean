import RouteVolume.Network
import RouteVolume.Settings

namespace RouteVolume

structure Branch where
  node : Int
  passage : Passage
  box : Box
  path : List Int
  deriving DecidableEq, Repr

inductive Arrival where
  | region
  | pruned (node : Node) (box : Box)
  | fork (box : Box) (edges : List Edge)

structure Tally where
  launched : Nat := 0
  steps : Nat := 0
  emitted : Nat := 0
  pruned : Nat := 0
  deriving DecidableEq, Repr

structure Pruning where
  label : String
  box : Box
  deriving DecidableEq, Repr

/-- A walk so far: regions and prunings newest first, and why the walk stopped if it did. -/
structure Walk where
  tally : Tally := {}
  regions : List Box := []
  prunings : List Pruning := []
  fault? : Option Fault := none
  deriving DecidableEq, Repr

namespace Walk

def step (w : Walk) : Walk := { w with tally.steps := w.tally.steps + 1 }

def emit (w : Walk) (box : Box) : Walk :=
  { w with tally.emitted := w.tally.emitted + 1, regions := box :: w.regions }

def prune (w : Walk) : Walk := { w with tally.pruned := w.tally.pruned + 1 }

def note (w : Walk) (p : Pruning) : Walk := { w with prunings := p :: w.prunings }

def stop (w : Walk) (fault : Fault) : Walk := { w with fault? := some fault }

def result (w : Walk) : Except Fault (List Box) :=
  match w.fault? with
  | none => .ok w.regions.reverse
  | some fault => .error fault

end Walk

namespace Network

def branches (box : Box) (path : List Int) (edges : List Edge) : List Branch :=
  (edges.map fun e => ⟨e.target, e.passage, box, path⟩).reverse

def arrive (g : Network) (b : Branch) : Except Fault Arrival := do
  let node ← g.node b.node
  match node with
  | .start => pure .region
  | .accept | .reject =>
    let label ← node.label
    throw (.report (.brokenInvariant ("backward walk reached " ++ label ++ " mid-path")))
  | .condition .. | .blank =>
    if b.node ∈ b.path then
      let label ← node.label
      throw (.report (.cycle label))
    else if b.passage = .entry then
      let label ← node.label
      throw (.report (.brokenInvariant ("entry edge leads to condition node " ++ label)))
    else
      let box ← node.narrow b.box b.passage
      if box.isFeasible then
        let edges ← g.edgesFrom b.node
        pure (.fork box edges)
      else pure (.pruned node box)

def numbers (g : Network) : List Int :=
  (List.range (g.size + g.size)).map fun (k : Nat) => (k : Int) - g.size

def unvisited (g : Network) (path : List Int) : Nat :=
  g.numbers.countP fun k => k ∉ path

def fanOut (g : Network) : Nat := total (g.slots.toList.map fun s => s.leaving.length)

/-- An upper bound on the arrivals that a branch with the given path still leads to. -/
def reach (g : Network) (path : List Int) : Nat := Nat.pow (g.fanOut + 1) (g.unvisited path)

/-- An upper bound on the arrivals that a stack of branches still leads to. -/
def pending (g : Network) (stack : List Branch) : Nat :=
  total (stack.map fun b => g.reach b.path)

theorem length_of_mapM_ok {α β : Type} {f : α → Except Fault β} {xs : List α} {ys : List β}
    (read : xs.mapM f = .ok ys) : ys.length = xs.length := by
  induction xs generalizing ys with
  | nil =>
    simp only [List.mapM_nil, pure, Except.pure, Except.ok.injEq] at read
    simp [← read]
  | cons x rest ih =>
    simp only [List.mapM_cons, bind, Except.bind, pure, Except.pure] at read
    split at read
    · cases read
    · split at read
      · cases read
      · rename_i _ more
        cases read
        simp [ih more]

theorem mem_numbers {g : Network} {k : Int} :
    k ∈ g.numbers ↔ -(g.size : Int) ≤ k ∧ k < g.size := by
  simp only [numbers, List.mem_map, List.mem_range]
  constructor
  · rintro ⟨j, within, rfl⟩
    omega
  · intro bounds
    exact ⟨(k + g.size).toNat, by omega, by omega⟩

theorem slot_eq_ok_iff {g : Network} {k : Int} {s : Slot} :
    g.slot k = .ok s ↔ ∃ j, place g.size k = .ok j ∧ g.slots[j]? = some s := by
  simp only [slot, bind, Except.bind, pure, Except.pure, throw, throwThe, MonadExceptOf.throw]
  cases place g.size k with
  | error fault => simp
  | ok j =>
    cases found : g.slots[j]? with
    | none => simp [found]
    | some stored => simp [found]

theorem mem_numbers_of_slot {g : Network} {k : Int} {s : Slot} (stored : g.slot k = .ok s) :
    k ∈ g.numbers := by
  obtain ⟨j, points, _⟩ := slot_eq_ok_iff.mp stored
  exact mem_numbers.mpr (bounds_of_place points)

theorem edgesFrom_eq_ok_iff {g : Network} {k : Int} {edges : List Edge} :
    g.edgesFrom k = .ok edges ↔ ∃ s, g.slot k = .ok s ∧ s.leaving.mapM g.edge = .ok edges := by
  simp only [edgesFrom, bind, Except.bind]
  cases g.slot k with
  | error fault => simp
  | ok s => simp

theorem edgesFrom_length_le {g : Network} {k : Int} {edges : List Edge}
    (listed : g.edgesFrom k = .ok edges) : edges.length ≤ g.fanOut := by
  obtain ⟨s, stored, read⟩ := edgesFrom_eq_ok_iff.mp listed
  obtain ⟨j, _, found⟩ := slot_eq_ok_iff.mp stored
  rw [length_of_mapM_ok read]
  have mem := Array.mem_toList_iff.mpr (Array.mem_of_getElem? found)
  exact le_total_of_mem (List.mem_map.mpr ⟨_, mem, rfl⟩)

/-- What an arrival without a fault says about its branch and the node it comes to. -/
inductive Arrived (g : Network) (b : Branch) (s : Slot) : Arrival → Prop
  | region (start : s.node = .start) : Arrived g b s .region
  | pruned {box : Box} (narrowed : s.node.narrow b.box b.passage = .ok box)
      (infeasible : box.isFeasible = false) : Arrived g b s (.pruned s.node box)
  | fork {box : Box} {edges : List Edge} (kind : s.node.kind = .condition) (fresh : b.node ∉ b.path)
      (left : b.passage ≠ .entry) (narrowed : s.node.narrow b.box b.passage = .ok box)
      (feasible : box.isFeasible = true) (listed : g.edgesFrom b.node = .ok edges) :
      Arrived g b s (.fork box edges)

theorem arrive_start {g : Network} {b : Branch} {s : Slot} (there : g.slot b.node = .ok s)
    (start : s.node = .start) : g.arrive b = .ok .region := by
  simp only [arrive, node, there, start, Except.map, bind, Except.bind, pure, Except.pure]

theorem arrive_condition {g : Network} {b : Branch} {s : Slot} (there : g.slot b.node = .ok s)
    (kind : s.node.kind = .condition) :
    g.arrive b =
      if b.node ∈ b.path then s.node.label >>= fun label => .error (.report (.cycle label))
      else if b.passage = .entry then s.node.label >>= fun label =>
        .error (.report (.brokenInvariant ("entry edge leads to condition node " ++ label)))
      else s.node.narrow b.box b.passage >>= fun box =>
        if box.isFeasible then g.edgesFrom b.node >>= fun edges => .ok (.fork box edges)
        else .ok (.pruned s.node box) := by
  unfold arrive node
  rw [there]
  simp only [Except.map, bind, Except.bind, pure, Except.pure, throw, throwThe, MonadExceptOf.throw]
  cases test : s.node with
  | condition attr threshold workflow position => rfl
  | blank => rfl
  | accept => rw [test] at kind; cases kind
  | reject => rw [test] at kind; cases kind
  | start => rw [test] at kind; cases kind

theorem arrived_of_arrive {g : Network} {b : Branch} {a : Arrival} (arrives : g.arrive b = .ok a) :
    ∃ s, g.slot b.node = .ok s ∧ g.Arrived b s a := by
  cases there : g.slot b.node with
  | error fault =>
    unfold arrive node at arrives
    rw [there] at arrives
    cases arrives
  | ok s =>
    refine ⟨s, rfl, ?_⟩
    cases kind : s.node.kind with
    | condition =>
      rw [arrive_condition there kind] at arrives
      split at arrives
      · cases label : s.node.label <;> rw [label] at arrives <;> cases arrives
      · rename_i fresh
        split at arrives
        · cases label : s.node.label <;> rw [label] at arrives <;> cases arrives
        · rename_i left
          cases narrowed : s.node.narrow b.box b.passage with
          | error fault => rw [narrowed] at arrives; cases arrives
          | ok box =>
            simp only [narrowed, bind, Except.bind] at arrives
            split at arrives
            · rename_i feasible
              cases listed : g.edgesFrom b.node with
              | error fault => rw [listed] at arrives; cases arrives
              | ok edges =>
                rw [listed] at arrives
                cases arrives
                exact .fork kind fresh left narrowed feasible listed
            · rename_i infeasible
              cases arrives
              exact .pruned narrowed (Bool.eq_false_iff.mpr infeasible)
    | start =>
      have start : s.node = .start := by
        cases test : s.node <;> rw [test] at kind <;> first | rfl | cases kind
      rw [arrive_start there start] at arrives
      cases arrives
      exact .region start
    | accept =>
      cases test : s.node <;> rw [test] at kind <;> cases kind
      simp only [arrive, node, there, test, Except.map, bind, Except.bind] at arrives
      cases arrives
    | reject =>
      cases test : s.node <;> rw [test] at kind <;> cases kind
      simp only [arrive, node, there, test, Except.map, bind, Except.bind] at arrives
      cases arrives

theorem unvisited_cons_lt {g : Network} {k : Int} {path : List Int} (known : k ∈ g.numbers)
    (fresh : k ∉ path) : g.unvisited (k :: path) < g.unvisited path := by
  have strict (ks : List Int) (mem : k ∈ ks) :
      ks.countP (fun j => j ∉ k :: path) < ks.countP (fun j => j ∉ path) := by
    induction ks with
    | nil => cases mem
    | cons j rest ih =>
      have weaker : rest.countP (fun j => j ∉ k :: path) ≤ rest.countP (fun j => j ∉ path) := by
        refine List.countP_mono_left fun i _ unseen => ?_
        simp only [List.mem_cons, not_or, decide_eq_true_eq] at unseen ⊢
        exact unseen.2
      by_cases same : j = k
      · subst same
        rw [List.countP_cons_of_neg (by simp), List.countP_cons_of_pos (by simp [fresh])]
        omega
      · have := ih ((List.mem_cons.mp mem).resolve_left (Ne.symm same))
        have alike : decide (j ∉ k :: path) = decide (j ∉ path) := by
          simp [same]
        rw [List.countP_cons, List.countP_cons, alike]
        omega
  exact strict g.numbers known

theorem reach_pos (g : Network) (path : List Int) : 0 < g.reach path :=
  Nat.pow_pos (Nat.succ_pos _)

theorem mul_reach_cons_lt {g : Network} {k : Int} {n : Nat} {path : List Int}
    (known : k ∈ g.numbers) (fresh : k ∉ path) (few : n ≤ g.fanOut) :
    n * g.reach (k :: path) < g.reach path := by
  have fewer : g.unvisited (k :: path) + 1 ≤ g.unvisited path := unvisited_cons_lt known fresh
  have grows : g.reach (k :: path) * (g.fanOut + 1) ≤ g.reach path :=
    Nat.pow_le_pow_right (Nat.succ_pos g.fanOut) fewer
  have step := Nat.mul_lt_mul_of_pos_right (Nat.lt_succ_of_le few) (g.reach_pos (k :: path))
  rw [Nat.mul_comm] at grows
  exact Nat.lt_of_lt_of_le step grows

theorem pending_cons (g : Network) (b : Branch) (rest : List Branch) :
    g.pending (b :: rest) = g.reach b.path + g.pending rest := rfl

theorem pending_append (g : Network) (front back : List Branch) :
    g.pending (front ++ back) = g.pending front + g.pending back := by
  simp only [pending, List.map_append, total_append]

theorem pending_branches (g : Network) (box : Box) (path : List Int) (edges : List Edge) :
    g.pending (branches box path edges) = edges.length * g.reach path := by
  have alike : (branches box path edges).map (fun b => g.reach b.path) =
      List.replicate edges.length (g.reach path) := by
    refine List.eq_replicate_iff.mpr ⟨by simp [branches], fun n mem => ?_⟩
    obtain ⟨b, made, rfl⟩ := List.mem_map.mp mem
    obtain ⟨e, _, rfl⟩ := List.mem_map.mp (List.mem_reverse.mp made)
    rfl
  rw [pending, alike, total_replicate]

theorem pending_fork_lt {g : Network} {b : Branch} {box : Box} {edges : List Edge}
    (rest : List Branch) (forked : g.arrive b = .ok (.fork box edges)) :
    g.pending (branches box (b.node :: b.path) edges ++ rest) < g.pending (b :: rest) := by
  obtain ⟨s, stored, arrived⟩ := arrived_of_arrive forked
  rw [pending_append, pending_branches, pending_cons]
  cases arrived with
  | fork _ fresh _ _ _ listed =>
    exact Nat.add_lt_add_right
      (mul_reach_cons_lt (mem_numbers_of_slot stored) fresh (edgesFrom_length_le listed)) _

theorem pending_rest_lt (g : Network) (b : Branch) (rest : List Branch) :
    g.pending rest < g.pending (b :: rest) := by
  have positive := g.reach_pos b.path
  rw [pending_cons]
  omega

/-- Follows the branches of a stack, front first. -/
def follow (g : Network) (stack : List Branch) (walk : Walk) : Walk :=
  match stack with
  | [] => walk
  | b :: rest =>
    let walk := walk.step
    match _arrived : g.arrive b with
    | .error fault => walk.stop fault
    | .ok .region => g.follow rest (walk.emit b.box)
    | .ok (.pruned node box) =>
      let walk := walk.prune
      match node.label with
      | .error fault => walk.stop fault
      | .ok label => g.follow rest (walk.note ⟨label, box⟩)
    | .ok (.fork box edges) =>
      g.follow (branches box (b.node :: b.path) edges ++ rest) walk
termination_by g.pending stack
decreasing_by
  · exact pending_rest_lt g b rest
  · exact pending_rest_lt g b rest
  · exact pending_fork_lt rest (by assumption)

/-- The walk from Accept under settings, each edge that leaves Accept beginning a branch. An
edge that is missing stops the walk as soon as it is to begin one. -/
def walk (g : Network) (s : Settings) : Walk :=
  match g.slot accept with
  | .error fault => ({} : Walk).stop fault
  | .ok slot =>
    let launched := (slot.leaving.takeWhile fun e => e < g.edges.size).length
    let begun : Walk := { tally.launched := launched }
    match slot.leaving.mapM g.edge with
    | .error fault => begun.stop fault
    | .ok edges => g.follow (branches s.domain [accept] edges) begun

end Network

structure Walker where
  network : Network
  settings : Settings
  tally : Tally := {}
  deriving DecidableEq, Repr

/-- One walk. The counts of the walk before it are given up. -/
def Walker.walk (w : Walker) : Walker × Except Fault (List Box) :=
  let walk := w.network.walk w.settings
  ({ w with tally := walk.tally }, walk.result)

end RouteVolume
