import RouteVolume.Proofs.Network.Replay

namespace RouteVolume.Network

def prunes (g : Network) (b : Branch) : Bool :=
  match g.arrive b with
  | .ok (.pruned _ _) => true
  | _ => false

def tallied (g : Network) (tally : Tally) (bs : List Branch) : Tally where
  launched := tally.launched
  steps := tally.steps + bs.length
  emitted := tally.emitted + (bs.filterMap g.region?).length
  pruned := tally.pruned + bs.countP g.prunes

theorem tally_handle {g : Network} {walk : Walk} (running : walk.fault? = none) {b : Branch}
    (passed : g.failure? b = none) : (g.handle walk b).tally = g.tallied walk.tally [b] := by
  unfold failure? at passed
  unfold handle tallied
  rw [running, List.filterMap_cons, List.countP_singleton, region?, prunes]
  cases arrived : g.arrive b with
  | error fault => simp only [arrived] at passed; cases passed
  | ok arrival =>
    cases arrival with
    | region => rfl
    | pruned node box =>
      simp only [arrived] at passed
      cases label : node.label with
      | error fault => simp only [label] at passed; cases passed
      | ok text => simp only [label]; rfl
    | fork box edges => rfl

theorem tallied_append (g : Network) (tally : Tally) (bs cs : List Branch) :
    g.tallied tally (bs ++ cs) = g.tallied (g.tallied tally bs) cs := by
  unfold tallied
  rw [List.length_append, List.filterMap_append, List.length_append, List.countP_append]
  simp only [Nat.add_assoc]

theorem tally_replay {g : Network} {walk : Walk} (running : walk.fault? = none) {vs : List Visit}
    (fine : ∀ v ∈ vs, g.failure? v.branch = none) :
    (g.replay walk vs).tally = g.tallied walk.tally (vs.map (·.branch)) := by
  induction vs generalizing walk with
  | nil => rfl
  | cons v rest ih =>
    obtain ⟨first, others⟩ := List.forall_mem_cons.mp fine
    have handled := fault?_handle running v.branch (g := g)
    unfold replay
    rw [List.foldl_cons, ← replay, ih (handled.trans first) others, tally_handle running first,
      List.map_cons, ← tallied_append, List.singleton_append]

theorem tally_walk {g : Network} {s : Settings} {edges : List Edge}
    (listed : g.edgesFrom accept = .ok edges)
    (fine : ∀ v ∈ g.visits s, g.failure? v.branch = none) :
    (g.walk s).tally =
      g.tallied { launched := edges.length } ((g.visits s).map (·.branch)) := by
  rw [walk_eq_replay listed, tally_replay rfl fine]

end RouteVolume.Network
