import Mathlib.Data.List.Nodup
import RouteVolume.Proofs.Network.Adjacency

namespace RouteVolume

structure Visit where
  trail : List Nat
  branch : Branch

namespace Network

def spread (g : Network) (trail : List Nat) (box : Box) (path : List Int) (numbers : List Nat) :
    List Visit :=
  (numbers.filterMap fun e =>
    g.edges[e]?.map fun edge => ⟨e :: trail, ⟨edge.target, edge.passage, box, path⟩⟩).reverse

def children (g : Network) (v : Visit) : List Visit :=
  match g.arrive v.branch, g.slot v.branch.node with
  | .ok (.fork box _), .ok s =>
    g.spread v.trail box (v.branch.node :: v.branch.path) s.leaving
  | _, _ => []

theorem mem_spread {g : Network} {trail : List Nat} {box : Box} {path : List Int}
    {numbers : List Nat} {v : Visit} :
    v ∈ g.spread trail box path numbers ↔ ∃ e ∈ numbers, ∃ edge, g.edges[e]? = some edge ∧
      v = ⟨e :: trail, ⟨edge.target, edge.passage, box, path⟩⟩ := by
  unfold spread
  rw [List.mem_reverse, List.mem_filterMap]
  apply exists_congr
  intro e
  apply and_congr_right
  intro _
  rw [Option.map_eq_some_iff]
  exact exists_congr fun edge => and_congr_right fun _ => eq_comm

theorem map_branch_spread {g : Network} {numbers : List Nat} {edges : List Edge}
    (read : numbers.mapM g.edge = .ok edges) (trail : List Nat) (box : Box) (path : List Int) :
    (g.spread trail box path numbers).map (·.branch) = branches box path edges := by
  unfold spread branches
  rw [List.map_reverse]
  congr 1
  have stored := mapM_edge_eq_ok_iff.mp read
  induction numbers generalizing edges with
  | nil =>
    cases edges with
    | nil => rfl
    | cons first others => cases stored
  | cons e rest ih =>
    cases edges with
    | nil => cases stored
    | cons first others =>
      rw [List.map_cons, List.map_cons, List.cons.injEq] at stored
      obtain ⟨here, later⟩ := stored
      rw [List.filterMap_cons, here, Option.map_some, List.map_cons, List.map_cons,
        ih (mapM_edge_eq_ok_iff.mpr later) later]

theorem mem_children {g : Network} {v child : Visit} :
    child ∈ g.children v ↔ ∃ box edges s, g.arrive v.branch = .ok (.fork box edges) ∧
      g.slot v.branch.node = .ok s ∧
      child ∈ g.spread v.trail box (v.branch.node :: v.branch.path) s.leaving := by
  unfold children
  constructor
  · intro mem
    split at mem
    · rename_i box edges s arrived stored
      exact ⟨box, edges, s, arrived, stored, mem⟩
    · cases mem
  · intro ⟨box, edges, s, arrived, stored, mem⟩
    rw [arrived, stored]
    exact mem

def onward (g : Network) (b : Branch) : List Branch :=
  match g.arrive b with
  | .ok (.fork box edges) => branches box (b.node :: b.path) edges
  | _ => []

theorem map_branch_children (g : Network) (v : Visit) :
    (g.children v).map (·.branch) = g.onward v.branch := by
  unfold children onward
  split
  · rename_i box edges s forked stored
    obtain ⟨_, _, arrived⟩ := arrived_of_arrive forked
    cases arrived with
    | fork _ _ _ _ _ listed =>
      obtain ⟨t, found, read⟩ := edgesFrom_eq_ok_iff.mp listed
      cases stored.symm.trans found
      rw [forked]
      exact map_branch_spread read _ _ _
  · rename_i never
    split
    · rename_i box edges forked
      obtain ⟨s, stored, _⟩ := arrived_of_arrive forked
      exact absurd stored (never box edges s forked)
    · rfl

theorem unvisited_child_lt {g : Network} {v child : Visit} (mem : child ∈ g.children v) :
    g.unvisited child.branch.path < g.unvisited v.branch.path := by
  obtain ⟨box, edges, s, forked, stored, onward⟩ := mem_children.mp mem
  obtain ⟨_, _, arrived⟩ := arrived_of_arrive forked
  obtain ⟨e, _, edge, _, rfl⟩ := mem_spread.mp onward
  cases arrived with
  | fork _ fresh _ _ _ _ => exact unvisited_cons_lt (mem_numbers_of_slot stored) fresh

def visitsFrom (g : Network) (v : Visit) : List Visit :=
  v :: (g.children v).attach.flatMap fun ⟨child, _⟩ => g.visitsFrom child
termination_by g.unvisited v.branch.path
decreasing_by exact unvisited_child_lt (by assumption)

theorem visitsFrom_eq (g : Network) (v : Visit) :
    g.visitsFrom v = v :: (g.children v).flatMap g.visitsFrom := by
  unfold visitsFrom
  rw [List.flatMap_subtype (g := g.visitsFrom) fun _ _ => rfl, List.unattach_attach]

def launches (g : Network) (s : Settings) : List Visit :=
  match g.slot accept with
  | .error _ => []
  | .ok slot => g.spread [] s.domain [accept] slot.leaving

def visits (g : Network) (s : Settings) : List Visit := (g.launches s).flatMap g.visitsFrom

theorem self_mem_visitsFrom (g : Network) (v : Visit) : v ∈ g.visitsFrom v := by
  rw [visitsFrom_eq]
  exact List.mem_cons_self

theorem mem_visitsFrom_of_child {g : Network} {v w child : Visit} (mem : w ∈ g.visitsFrom v)
    (onward : child ∈ g.children w) : child ∈ g.visitsFrom v := by
  induction v using visitsFrom.induct g with
  | case1 v ih =>
    rw [visitsFrom_eq] at mem ⊢
    refine List.mem_cons_of_mem _ (List.mem_flatMap.mpr ?_)
    rcases List.mem_cons.mp mem with rfl | below
    · exact ⟨child, onward, g.self_mem_visitsFrom child⟩
    · obtain ⟨first, begins, within⟩ := List.mem_flatMap.mp below
      exact ⟨first, begins, ih first begins within⟩

theorem visitsFrom_induction {g : Network} {motive : Visit → Prop} {v : Visit} (first : motive v)
    (passes : ∀ w child, motive w → child ∈ g.children w → motive child) :
    ∀ w ∈ g.visitsFrom v, motive w := by
  induction v using visitsFrom.induct g with
  | case1 v ih =>
    intro w mem
    rw [visitsFrom_eq] at mem
    rcases List.mem_cons.mp mem with rfl | below
    · exact first
    · obtain ⟨child, onward, within⟩ := List.mem_flatMap.mp below
      exact ih child onward (passes v child first onward) w within

theorem mem_visits_of_launch {g : Network} {s : Settings} {v : Visit} (begins : v ∈ g.launches s) :
    v ∈ g.visits s :=
  List.mem_flatMap.mpr ⟨v, begins, g.self_mem_visitsFrom v⟩

theorem mem_visits_of_child {g : Network} {s : Settings} {v child : Visit} (mem : v ∈ g.visits s)
    (onward : child ∈ g.children v) : child ∈ g.visits s := by
  obtain ⟨first, begins, within⟩ := List.mem_flatMap.mp mem
  exact List.mem_flatMap.mpr ⟨first, begins, mem_visitsFrom_of_child within onward⟩

theorem visits_induction {g : Network} {s : Settings} {motive : Visit → Prop}
    (launch : ∀ v ∈ g.launches s, motive v)
    (passes : ∀ v child, motive v → child ∈ g.children v → motive child) :
    ∀ v ∈ g.visits s, motive v := by
  intro v mem
  obtain ⟨first, begins, within⟩ := List.mem_flatMap.mp mem
  exact visitsFrom_induction (launch first begins) passes v within

theorem suffix_trail {g : Network} {v w : Visit} (mem : w ∈ g.visitsFrom v) :
    v.trail <:+ w.trail := by
  refine visitsFrom_induction (motive := fun w => v.trail <:+ w.trail) (List.suffix_refl _)
    (fun u child extends_ onward => ?_) w mem
  obtain ⟨_, _, _, _, _, along⟩ := mem_children.mp onward
  obtain ⟨e, _, _, _, rfl⟩ := mem_spread.mp along
  exact extends_.trans (List.suffix_cons _ _)

theorem nodup_trails_spread (g : Network) (trail : List Nat) (box : Box) (path : List Int)
    {numbers : List Nat} (distinct : numbers.Nodup) :
    ((g.spread trail box path numbers).map (·.trail)).Nodup := by
  have trails : (g.spread trail box path numbers).map (·.trail) =
      ((numbers.filter fun e => g.edges[e]?.isSome).map (· :: trail)).reverse := by
    unfold spread
    rw [List.map_reverse]
    congr 1
    induction numbers with
    | nil => rfl
    | cons e rest ih =>
      rw [List.filterMap_cons, List.filter_cons]
      cases g.edges[e]? with
      | none => exact ih distinct.of_cons
      | some edge =>
        rw [Option.map_some, List.map_cons, ih distinct.of_cons, Option.isSome_some, if_pos rfl,
          List.map_cons]
  rw [trails, List.nodup_reverse]
  exact (distinct.filter _).map fun _ _ same => (List.cons.inj same).1

theorem nodup_trails_forest {g : Network} (base : List Nat) {roots : List Visit}
    (distinct : (roots.map (·.trail)).Nodup) (grown : ∀ v ∈ roots, ∃ e, v.trail = e :: base)
    (trees : ∀ v ∈ roots, ((g.visitsFrom v).map (·.trail)).Nodup) :
    ((roots.flatMap g.visitsFrom).map (·.trail)).Nodup := by
  rw [List.map_flatMap, List.nodup_flatMap]
  refine ⟨trees, ?_⟩
  rw [List.Nodup, List.pairwise_map] at distinct
  apply distinct.imp_of_mem
  intro v w inV inW differ t left right
  obtain ⟨d, ofV⟩ := grown v inV
  obtain ⟨e, ofW⟩ := grown w inW
  obtain ⟨x, belowV, rfl⟩ := List.mem_map.mp left
  obtain ⟨y, belowW, same⟩ := List.mem_map.mp right
  obtain ⟨front, fromV⟩ := suffix_trail belowV
  obtain ⟨back, fromW⟩ := suffix_trail belowW
  rw [ofV] at fromV
  rw [ofW, same] at fromW
  have joined : (front ++ [d]) ++ base = (back ++ [e]) ++ base := by
    rw [List.append_assoc, List.append_assoc]
    exact fromV.trans fromW.symm
  have last := List.append_inj_right' (List.append_cancel_right joined) rfl
  rw [ofV, ofW, (List.cons.inj last).1] at differ
  exact differ rfl

theorem nodup_trails_spread_forest {g : Network} {trail : List Nat} {box : Box} {path : List Int}
    {numbers : List Nat} (distinct : numbers.Nodup)
    (trees : ∀ v ∈ g.spread trail box path numbers, ((g.visitsFrom v).map (·.trail)).Nodup) :
    (((g.spread trail box path numbers).flatMap g.visitsFrom).map (·.trail)).Nodup := by
  refine nodup_trails_forest trail (g.nodup_trails_spread trail box path distinct) ?_ trees
  intro v mem
  obtain ⟨e, _, _, _, rfl⟩ := mem_spread.mp mem
  exact ⟨e, rfl⟩

section Distinct

variable {g : Network} (listed : ∀ k s, g.slot k = .ok s → s.leaving.Nodup)

include listed

theorem nodup_trails_visitsFrom (v : Visit) : ((g.visitsFrom v).map (·.trail)).Nodup := by
  induction v using visitsFrom.induct g with
  | case1 v ih =>
    rw [visitsFrom_eq, List.map_cons, List.nodup_cons]
    constructor
    · intro again
      obtain ⟨w, below, same⟩ := List.mem_map.mp again
      obtain ⟨child, onward, within⟩ := List.mem_flatMap.mp below
      obtain ⟨_, _, _, _, _, along⟩ := mem_children.mp onward
      obtain ⟨e, _, _, _, rfl⟩ := mem_spread.mp along
      -- What lies below has followed one edge more.
      have longer := (suffix_trail within).length_le
      rw [same, List.length_cons] at longer
      omega
    · unfold children at ih ⊢
      split at ih
      · rename_i stored
        exact nodup_trails_spread_forest (listed _ _ stored) ih
      · exact List.nodup_nil

theorem nodup_trails_visits (s : Settings) : ((g.visits s).map (·.trail)).Nodup := by
  unfold visits launches
  split
  · exact List.nodup_nil
  · rename_i stored
    exact nodup_trails_spread_forest (listed _ _ stored) fun v _ =>
      nodup_trails_visitsFrom listed v

end Distinct

end Network

end RouteVolume
