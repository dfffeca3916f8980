import Mathlib.Data.List.TakeWhile
import RouteVolume.Proofs.Network.Visits

namespace RouteVolume.Network

def handle (g : Network) (walk : Walk) (b : Branch) : Walk :=
  match walk.fault? with
  | some _ => walk
  | none =>
    match g.arrive b with
    | .error fault => walk.step.stop fault
    | .ok .region => walk.step.emit b.box
    | .ok (.pruned node box) =>
      match node.label with
      | .error fault => walk.step.prune.stop fault
      | .ok label => walk.step.prune.note ⟨label, box⟩
    | .ok (.fork _ _) => walk.step

def failure? (g : Network) (b : Branch) : Option Fault :=
  match g.arrive b with
  | .error fault => some fault
  | .ok (.pruned node _) =>
    match node.label with
    | .error fault => some fault
    | .ok _ => none
  | _ => none

def region? (g : Network) (b : Branch) : Option Box :=
  match g.arrive b with
  | .ok .region => some b.box
  | _ => none

def replay (g : Network) (walk : Walk) (vs : List Visit) : Walk :=
  vs.foldl (fun w v => g.handle w v.branch) walk

theorem replay_stopped {g : Network} {walk : Walk} {fault : Fault}
    (stopped : walk.fault? = some fault) (vs : List Visit) : g.replay walk vs = walk := by
  induction vs with
  | nil => rfl
  | cons v rest ih =>
    have unchanged : g.handle walk v.branch = walk := by rw [handle, stopped]
    unfold replay
    rw [List.foldl_cons, unchanged]
    exact ih

theorem pending_onward_lt (g : Network) (b : Branch) (rest : List Branch) :
    g.pending (g.onward b ++ rest) < g.pending (b :: rest) := by
  unfold onward
  split
  · rename_i forked
    exact pending_fork_lt rest forked
  · exact g.pending_rest_lt b rest

theorem follow_cons {g : Network} {walk : Walk} (running : walk.fault? = none) (b : Branch)
    (rest : List Branch) :
    g.follow (b :: rest) walk =
      match g.failure? b with
      | some _ => g.handle walk b
      | none => g.follow (g.onward b ++ rest) (g.handle walk b) := by
  rw [follow, failure?, handle, running, onward]
  split
  · rename_i arrived
    simp only [arrived]
  · rename_i arrived
    simp only [arrived, List.nil_append]
  · rename_i node box arrived
    simp only [arrived, List.nil_append]
    cases node.label <;> rfl
  · rename_i box edges arrived
    simp only [arrived]

theorem fault?_handle {g : Network} {walk : Walk} (running : walk.fault? = none) (b : Branch) :
    (g.handle walk b).fault? = g.failure? b := by
  unfold handle
  rw [running, failure?]
  cases g.arrive b with
  | error fault => rfl
  | ok arrival =>
    cases arrival with
    | region => exact running
    | pruned node box =>
      cases label : node.label with
      | error fault => simp only [label]; rfl
      | ok text => simp only [label]; exact running
    | fork box edges => exact running

theorem follow_eq_replay {g : Network} {stack : List Visit} {walk : Walk}
    (running : walk.fault? = none) :
    g.follow (stack.map (·.branch)) walk = g.replay walk (stack.flatMap g.visitsFrom) := by
  -- On the arrivals still pending: a visit that goes on is replaced by its children, which have fewer.
  induction size : g.pending (stack.map (·.branch)) using Nat.strongRecOn
    generalizing stack walk with
  | ind n ih =>
    cases stack with
    | nil =>
      rw [List.map_nil, follow]
      rfl
    | cons v rest =>
      have handled := fault?_handle running v.branch (g := g)
      rw [List.map_cons, follow_cons running, List.flatMap_cons, visitsFrom_eq, List.cons_append,
        replay, List.foldl_cons, ← replay]
      cases failed : g.failure? v.branch with
      | some fault => rw [replay_stopped (handled.trans failed)]
      | none =>
        rw [← map_branch_children, ← List.map_append, ← List.flatMap_append]
        refine ih _ ?_ (handled.trans failed) rfl
        rw [← size, List.map_append, map_branch_children]
        exact pending_onward_lt g v.branch _

theorem regions_handle {g : Network} {walk : Walk} (running : walk.fault? = none) {b : Branch}
    (passed : g.failure? b = none) :
    (g.handle walk b).regions = (g.region? b).toList ++ walk.regions := by
  unfold failure? at passed
  unfold handle
  rw [running, region?]
  cases arrived : g.arrive b with
  | error fault => simp only [arrived] at passed; cases passed
  | ok arrival =>
    cases arrival with
    | region => rfl
    | pruned node box =>
      simp only [arrived] at passed
      cases label : node.label with
      | error fault => simp only [label] at passed; cases passed
      | ok text => simp only [label]; rfl
    | fork box edges => rfl

theorem result_replay {g : Network} {walk : Walk} (running : walk.fault? = none)
    (vs : List Visit) :
    (g.replay walk vs).result =
      match vs.findSome? fun v => g.failure? v.branch with
      | some fault => .error fault
      | none => .ok (walk.regions.reverse ++ vs.filterMap fun v => g.region? v.branch) := by
  induction vs generalizing walk with
  | nil =>
    rw [replay, List.foldl_nil, Walk.result, running, List.findSome?_nil, List.filterMap_nil,
      List.append_nil]
  | cons v rest ih =>
    have handled := fault?_handle running v.branch (g := g)
    unfold replay
    rw [List.foldl_cons, ← replay, List.findSome?_cons]
    cases failed : g.failure? v.branch with
    | some fault =>
      rw [failed] at handled
      rw [replay_stopped handled, Walk.result, handled]
    | none =>
      rw [failed] at handled
      rw [ih handled, regions_handle running failed, List.filterMap_cons, List.reverse_append,
        List.append_assoc]
      cases g.region? v.branch <;> rfl

theorem walk_eq_follow {g : Network} {edges : List Edge} (listed : g.edgesFrom accept = .ok edges)
    (s : Settings) :
    g.walk s =
      g.follow (branches s.domain [accept] edges) { tally := { launched := edges.length } } := by
  obtain ⟨slot, stored, read⟩ := edgesFrom_eq_ok_iff.mp listed
  have inUse (e : Nat) (mem : e ∈ slot.leaving) : e < g.edges.size := by
    obtain ⟨_, _, found⟩ := stored_of_mapM_edge read mem
    exact (Array.getElem?_eq_some_iff.mp found).1
  have all : slot.leaving.takeWhile (fun e => e < g.edges.size) = slot.leaving :=
    List.takeWhile_eq_self_iff.mpr fun e mem => decide_eq_true (inUse e mem)
  unfold walk
  rw [stored]
  simp only [read, all]
  rw [← length_of_mapM_ok read]

theorem walk_eq_replay {g : Network} {edges : List Edge} (listed : g.edgesFrom accept = .ok edges)
    (s : Settings) : g.walk s = g.replay { tally := { launched := edges.length } } (g.visits s) := by
  obtain ⟨slot, stored, read⟩ := edgesFrom_eq_ok_iff.mp listed
  rw [walk_eq_follow listed, ← map_branch_spread read [] s.domain [accept], follow_eq_replay rfl,
    visits, launches, stored]

theorem result_walk {g : Network} {edges : List Edge} (listed : g.edgesFrom accept = .ok edges)
    (s : Settings) :
    (g.walk s).result =
      match (g.visits s).findSome? fun v => g.failure? v.branch with
      | some fault => .error fault
      | none => .ok ((g.visits s).filterMap fun v => g.region? v.branch) := by
  rw [walk_eq_replay listed, result_replay rfl]
  rfl

end RouteVolume.Network
