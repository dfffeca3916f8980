import Mathlib
import RouteVolume.Place
import RouteVolume.Proofs.Cover.Union

namespace RouteVolume.Cover

def delete (active : List Strip) (place : Nat) : Option (List Strip) :=
  if place ∈ active.map (·.place) then some (active.filter fun s => s.place ≠ place) else none

def enter (active : List Strip) (s : Strip) : List Strip :=
  if s.place ∈ active.map (·.place) then active.map fun t => if t.place = s.place then s else t
  else active ++ [s]

def update (all active : List Strip) (cut : Int) : Option (List Strip) := do
  let closing := all.filter fun s => s.range.hi + 1 = cut
  let opening := all.filter fun s => s.range.lo = cut
  let staying ← (closing.map (·.place)).foldlM delete active
  pure (opening.foldl enter staying)

def updates (all active : List Strip) : List Interval → Option (List (Interval × List Strip))
  | [] => some []
  | cell :: later => do
    let now ← update all active cell.lo
    let visited ← updates all now later
    pure ((cell, now) :: visited)

theorem foldlM_delete {places : List Nat} {active : List Strip} (distinct : places.Nodup)
    (there : ∀ i ∈ places, i ∈ active.map (·.place)) :
    places.foldlM delete active = some (active.filter fun s => s.place ∉ places) := by
  induction places generalizing active with
  | nil => simp
  | cons i places ih =>
    obtain ⟨fresh, distinct⟩ := List.nodup_cons.mp distinct
    have left (j : Nat) (mem : j ∈ places) :
        j ∈ (active.filter fun s => s.place ≠ i).map (·.place) := by
      obtain ⟨s, stored, rfl⟩ := List.mem_map.mp (there j (List.mem_cons_of_mem _ mem))
      have other : s.place ≠ i := fun same => fresh (same ▸ mem)
      exact List.mem_map_of_mem (List.mem_filter.mpr ⟨stored, decide_eq_true other⟩)
    have found : delete active i = some (active.filter fun s => s.place ≠ i) :=
      if_pos (there i List.mem_cons_self)
    rw [List.foldlM_cons, found]
    refine (ih distinct left).trans (congrArg some ?_)
    rw [List.filter_filter]
    apply List.filter_congr
    intro s _
    rw [← Bool.decide_and, decide_eq_decide, List.mem_cons, not_or, and_comm]

theorem foldl_enter {joining staying : List Strip}
    (distinct : ((staying ++ joining).map (·.place)).Nodup) :
    joining.foldl enter staying = staying ++ joining := by
  induction joining generalizing staying with
  | nil => rw [List.foldl_nil, List.append_nil]
  | cons s joining ih =>
    have fresh : s.place ∉ staying.map (·.place) := by
      rw [List.map_append, List.map_cons] at distinct
      exact fun stored => List.disjoint_of_nodup_append distinct stored List.mem_cons_self
    rw [List.append_cons] at distinct ⊢
    rw [List.foldl_cons, enter, if_neg fresh]
    exact ih distinct

namespace Underway

variable {all waiting active : List Strip} {cut next : Int} {later : List Int}

theorem update (underway : Underway all cut (next :: later) waiting active)
    (distinct : (all.map (·.place)).Nodup)
    (inTurn : waiting.filter (fun s => s.range.lo = cut) = all.filter fun s => s.range.lo = cut) :
    update all active cut = some (nowActive cut waiting active) := by
  -- What ends at a cut has been active up to it, and what begins there has not.
  have present (s : Strip) (mem : s ∈ all) (ends : s.range.hi + 1 = cut) : s ∈ active := by
    have room := underway.filled s mem
    exact underway.begun.mem_iff.mpr (List.mem_filter.mpr ⟨mem, decide_eq_true (by omega)⟩)
  have one {s t : Strip} (left : s ∈ all) (right : t ∈ all) (same : s.place = t.place) : s = t :=
    List.inj_on_of_nodup_map distinct left right same
  have deleted : ((all.filter fun s => s.range.hi + 1 = cut).map (·.place)).foldlM delete active =
      some (active.filter fun s => s.range.hi + 1 ≠ cut) := by
    rw [foldlM_delete (distinct.sublist (List.filter_sublist.map _))]
    · refine congrArg some (List.filter_congr fun s mem => decide_eq_decide.mpr (not_congr ?_))
      have stored := (List.mem_filter.mp (underway.begun.mem_iff.mp mem)).1
      constructor
      · intro gone
        obtain ⟨t, closing, same⟩ := List.mem_map.mp gone
        obtain ⟨inside, ends⟩ := List.mem_filter.mp closing
        exact one inside stored same ▸ of_decide_eq_true ends
      · exact fun ends => List.mem_map_of_mem (List.mem_filter.mpr ⟨stored, decide_eq_true ends⟩)
    · intro i gone
      obtain ⟨s, closing, rfl⟩ := List.mem_map.mp gone
      obtain ⟨inside, ends⟩ := List.mem_filter.mp closing
      exact List.mem_map_of_mem (present s inside (of_decide_eq_true ends))
  have joined : waiting.takeWhile (fun s => s.range.lo = cut) =
      all.filter fun s => s.range.lo = cut :=
    (split_sorted underway.sorted underway.least).1.trans inTurn
  have apart : ((nowActive cut waiting active).map (·.place)).Nodup :=
    ((underway.covers.map _).nodup_iff).mpr (distinct.sublist (List.filter_sublist.map _))
  unfold nowActive at apart ⊢
  rw [joined] at apart ⊢
  rw [Cover.update, deleted]
  exact congrArg some (foldl_enter apart)

end Underway

theorem Underway.updates {all waiting active : List Strip} {cut : Int} {later : List Int}
    (underway : Underway all cut later waiting active) (distinct : (all.map (·.place)).Nodup)
    (inTurn : ∀ x, cut ≤ x →
      waiting.filter (fun s => s.range.lo = x) = all.filter fun s => s.range.lo = x) :
    updates all active (between (cut :: later)) =
      some (sweepFrom waiting active (between (cut :: later))) := by
  induction later generalizing cut waiting active with
  | nil => rfl
  | cons next rest ih =>
    have near := (List.pairwise_cons.mp underway.ascending).1 next List.mem_cons_self
    have onward := underway.step.2
    have stillInTurn (x : Int) (behind : next ≤ x) :
        (waiting.dropWhile fun s => s.range.lo = cut).filter (fun s => s.range.lo = x) =
          all.filter fun s => s.range.lo = x := by
      rw [(split_sorted underway.sorted underway.least).2, List.filter_filter, ← inTurn x (by omega)]
      apply List.filter_congr
      intro s _
      rw [← Bool.decide_and, decide_eq_decide]
      omega
    have now := underway.update distinct (inTurn cut (Int.le_refl cut))
    simp only [between, Cover.updates, now, ih onward stillInTurn, Option.bind_eq_bind,
      Option.bind_some]
    rfl

theorem filter_mergeSort (all : List Strip) (x : Int) :
    (all.mergeSort fun s t => s.range.lo ≤ t.range.lo).filter (fun s => s.range.lo = x) =
      all.filter fun s => s.range.lo = x := by
  have level : (all.filter fun s => s.range.lo = x).Pairwise
      fun s t => decide (s.range.lo ≤ t.range.lo) = true := by
    refine List.pairwise_of_forall_mem_list fun s left t right => decide_eq_true ?_
    have here := of_decide_eq_true (List.mem_filter.mp left).2
    have there := of_decide_eq_true (List.mem_filter.mp right).2
    omega
  have kept := List.sublist_mergeSort (by simp; omega) (by simp; omega) level List.filter_sublist
  have part := kept.filter fun s => s.range.lo = x
  rw [List.filter_filter] at part
  simp only [Bool.and_self] at part
  exact (part.eq_of_length_le ((List.mergeSort_perm _ _).filter _).length_eq.le).symm

theorem updates_eq_sweep {all : List Strip} (filled : ∀ s ∈ all, s.range.lo ≤ s.range.hi)
    (distinct : (all.map (·.place)).Nodup) :
    updates all [] (cells (all.map (·.range))) = some (sweep all) := by
  unfold sweep cells
  cases ends : cuts (all.map (·.range)) with
  | nil => rfl
  | cons cut later =>
    exact (Underway.start filled ends).updates distinct fun x _ => filter_mergeSort all x

theorem nodup_places (boxes : List (List Interval)) : ((strips boxes).map (·.place)).Nodup := by
  have places := List.pairwise_map.mp (List.nodup_zipIdx_map_snd boxes)
  rw [List.Nodup, List.pairwise_map, strips, List.pairwise_filterMap]
  refine places.imp fun {left right} apart s one t two => ?_
  obtain ⟨_ | ⟨range, rest⟩, place⟩ := left
  · cases one
  · obtain ⟨_ | ⟨range, rest⟩, place⟩ := right
    · cases two
    · cases one
      cases two
      exact apart

theorem map_range_strips (boxes : List (List Interval)) :
    (strips boxes).map (·.range) = boxes.filterMap List.head? := by
  conv_rhs => rw [← List.zipIdx_map_fst 0 boxes, List.filterMap_map]
  rw [strips, List.map_filterMap]
  apply List.filterMap_congr
  rintro ⟨_ | ⟨range, rest⟩, place⟩ _
  · rfl
  · rfl

def calls (boxes : List (List Interval)) : List (Interval × List (List Interval)) :=
  ((sweep (strips boxes)).filter fun visited => !visited.2.isEmpty).map fun visited =>
    (visited.1, visited.2.map (·.rest))

theorem mem_calls {boxes inner : List (List Interval)} {cell : Interval} :
    (cell, inner) ∈ calls boxes ↔
      ∃ active, (cell, active) ∈ sweep (strips boxes) ∧ active ≠ [] ∧
        inner = active.map (·.rest) := by
  simp only [calls, List.mem_map, List.mem_filter, Prod.exists, Prod.mk.injEq, Bool.not_eq_true',
    List.isEmpty_eq_false_iff]
  constructor
  · rintro ⟨_, active, ⟨visited, some⟩, rfl, rfl⟩
    exact ⟨active, visited, some, rfl⟩
  · rintro ⟨active, visited, some, rfl⟩
    exact ⟨cell, active, ⟨visited, some⟩, rfl, rfl⟩

theorem measure_succ (axes : Nat) (boxes : List (List Interval)) :
    measure (axes + 1) boxes =
      total ((calls boxes).map fun call => call.1.size * measure axes call.2) := by
  rw [measure, calls]
  generalize sweep (strips boxes) = visits
  induction visits with
  | nil => rfl
  | cons first rest ih =>
    obtain ⟨cell, active⟩ := first
    rw [List.map_cons, total_cons, ih]
    cases active with
    | nil => simp
    | cons s others => simp [total_cons]

/-- Measuring boxes along some axes comes to measure others along the axes that are left. -/
inductive Reaches (axes : Nat) (boxes : List (List Interval)) :
    Nat → List (List Interval) → Prop where
  | here : Reaches axes boxes axes boxes
  | further {left : Nat} {outer inner : List (List Interval)} {cell : Interval}
      (reached : Reaches axes boxes (left + 1) outer) (call : (cell, inner) ∈ calls outer) :
      Reaches axes boxes left inner

/-- What is left of boxes behind their first axes. -/
def behind (axis : Nat) (boxes : List Box) : List (List Interval) :=
  boxes.map fun b => b.ranges.drop axis

theorem drop_eq_cons_iff {α : Type} {xs rest : List α} {n : Nat} {x : α} :
    xs.drop n = x :: rest ↔ xs[n]? = some x ∧ xs.drop (n + 1) = rest := by
  constructor
  · intro split
    rw [← List.head?_drop, ← List.tail_drop, split]
    exact ⟨rfl, rfl⟩
  · rintro ⟨stored, rfl⟩
    obtain ⟨within, rfl⟩ := List.getElem?_eq_some_iff.mp stored
    exact List.drop_eq_getElem_cons within

theorem mem_strips_behind {axis : Nat} {boxes : List Box} {s : Strip} :
    s ∈ strips (behind axis boxes) ↔
      ∃ b, boxes[s.place]? = some b ∧ b.ranges[axis]? = some s.range ∧
        b.ranges.drop (axis + 1) = s.rest := by
  rw [mem_strips_iff_getElem?, behind, List.getElem?_map, Option.map_eq_some_iff]
  simp only [drop_eq_cons_iff]

theorem subperm_of_places {α : Type} {xs : List α} {places : List Nat} (distinct : places.Nodup)
    (within : ∀ i ∈ places, i < xs.length) : (places.filterMap (xs[·]?)).Subperm xs := by
  obtain ⟨sorted, perm, part⟩ := List.subperm_of_subset distinct
    fun i mem => List.mem_range.mpr (within i mem)
  have items := part.filterMap (xs[·]?)
  rw [filterMap_getElem?_range xs (Nat.le_refl _)] at items
  exact ⟨sorted.filterMap (xs[·]?), perm.filterMap _, items⟩

/-- What holds of the sweep along one axis of a list of boxes. -/
structure Swept (boxes : List Box) (axis : Nat) : Prop where
  /-- No deletion fails, and the sweep has what is active after the updates at each cell. -/
  updated : updates (strips (behind axis boxes)) []
    (cells (boxes.filterMap (·.ranges[axis]?))) = some (sweep (strips (behind axis boxes)))
  /-- The dictionary has one entry for each box whose interval on the axis contains the cell. -/
  holds : ∀ cell active, (cell, active) ∈ sweep (strips (behind axis boxes)) →
    (active.map (·.place)).Nodup ∧
    ∀ i, i ∈ active.map (·.place) ↔
      ∃ b range, boxes[i]? = some b ∧ b.ranges[axis]? = some range ∧ ∀ x ∈ cell, x ∈ range
  measures : ∀ axes, measure (axes + 1) (behind axis boxes) =
    total ((calls (behind axis boxes)).map fun call => call.1.size * measure axes call.2)
  /-- What is measured further are the boxes at the places in the dictionary, in its order. -/
  passes : ∀ cell inner, (cell, inner) ∈ calls (behind axis boxes) →
    ∃ active chosen, (cell, active) ∈ sweep (strips (behind axis boxes)) ∧
      chosen = (active.map (·.place)).filterMap (boxes[·]?) ∧
      chosen ≠ [] ∧ chosen.Subperm boxes ∧ inner = behind (axis + 1) chosen

theorem filled_of_feasible {boxes : List Box} (feasible : ∀ b ∈ boxes, b.isFeasible) {axis : Nat}
    {s : Strip} (strip : s ∈ strips (behind axis boxes)) : s.range.lo ≤ s.range.hi := by
  obtain ⟨b, stored, range, _⟩ := mem_strips_behind.mp strip
  have nonempty := feasible b (List.mem_of_getElem? stored)
  simp only [Box.isFeasible, Bool.not_eq_true', List.any_eq_false] at nonempty
  simpa [Interval.isEmpty] using nonempty s.range (List.mem_of_getElem? range)

theorem covers_iff_forall_mem {cell i : Interval} (room : cell.lo ≤ cell.hi) :
    (i.lo ≤ cell.lo ∧ cell.hi ≤ i.hi) ↔ ∀ x ∈ cell, x ∈ i := by
  simp only [Interval.mem_def]
  constructor
  · intro covers x within
    omega
  · intro contains
    have first := contains cell.lo ⟨Int.le_refl _, room⟩
    have last := contains cell.hi ⟨room, Int.le_refl _⟩
    exact ⟨first.1, last.2⟩

theorem swept_of_feasible {boxes : List Box} (feasible : ∀ b ∈ boxes, b.isFeasible) (axis : Nat) :
    Swept boxes axis := by
  have filled (s : Strip) (strip : s ∈ strips (behind axis boxes)) : s.range.lo ≤ s.range.hi :=
    filled_of_feasible feasible strip
  obtain ⟨visited, covers⟩ := sweep_covers filled
  have ranges : (strips (behind axis boxes)).map (·.range) = boxes.filterMap (·.ranges[axis]?) := by
    rw [map_range_strips, behind, List.filterMap_map]
    exact List.filterMap_congr fun b _ => List.head?_drop
  have room {cell : Interval} {active : List Strip}
      (mem : (cell, active) ∈ sweep (strips (behind axis boxes))) : cell.lo ≤ cell.hi := by
    have among : cell ∈ cells _ := visited ▸ List.mem_map_of_mem mem
    exact lo_le_hi_of_between (ascending_cuts _) among
  have distinct {cell : Interval} {active : List Strip}
      (mem : (cell, active) ∈ sweep (strips (behind axis boxes))) :
      (active.map (·.place)).Nodup :=
    ((covers _ mem).map _).nodup_iff.mpr ((nodup_places _).sublist (List.filter_sublist.map _))
  have stored {cell : Interval} {active : List Strip}
      (mem : (cell, active) ∈ sweep (strips (behind axis boxes))) (s : Strip) (there : s ∈ active) :
      ∃ b, boxes[s.place]? = some b ∧ b.ranges[axis]? = some s.range ∧
        b.ranges.drop (axis + 1) = s.rest :=
    mem_strips_behind.mp (mem_covering.mp ((covers _ mem).mem_iff.mp there)).1
  refine ⟨ranges ▸ updates_eq_sweep filled (nodup_places _),
    fun cell active mem => ⟨distinct mem, fun i => ?_⟩, fun axes => measure_succ axes _,
    fun cell inner call => ?_⟩
  · constructor
    · intro there
      obtain ⟨s, entry, rfl⟩ := List.mem_map.mp there
      obtain ⟨b, box, range, _⟩ := stored mem s entry
      have within := (mem_covering.mp ((covers _ mem).mem_iff.mp entry)).2
      exact ⟨b, s.range, box, range, (covers_iff_forall_mem (room mem)).mp within⟩
    · intro ⟨b, range, box, onAxis, contains⟩
      have strip : (⟨i, range, b.ranges.drop (axis + 1)⟩ : Strip) ∈ strips (behind axis boxes) :=
        mem_strips_behind.mpr ⟨b, box, onAxis, rfl⟩
      have within := (covers_iff_forall_mem (room mem)).mpr contains
      have entry := (covers _ mem).mem_iff.mpr (mem_covering.mpr ⟨strip, within⟩)
      exact List.mem_map.mpr ⟨_, entry, rfl⟩
  · obtain ⟨active, mem, some, rfl⟩ := mem_calls.mp call
    have chosen : active.map (·.rest) =
        behind (axis + 1) ((active.map (·.place)).filterMap (boxes[·]?)) := by
      rw [behind, List.map_filterMap, List.filterMap_map, ← List.filterMap_eq_map]
      refine List.filterMap_congr fun s there => ?_
      obtain ⟨b, box, _, rest⟩ := stored mem s there
      simp [box, rest]
    refine ⟨active, _, mem, rfl, fun none => ?_,
      subperm_of_places (distinct mem) fun i there => ?_, chosen⟩
    · rw [none] at chosen
      exact some (List.map_eq_nil_iff.mp chosen)
    · obtain ⟨s, entry, rfl⟩ := List.mem_map.mp there
      obtain ⟨b, box, _⟩ := stored mem s entry
      exact (List.getElem?_eq_some_iff.mp box).1

/-- When boxes with points are measured from one axis on, no deletion fails in the sweep along this
axis, and the dictionary has at each cell the places of the boxes that contain it. Each list that
is measured further, at any depth, is a nonempty part of the boxes, with the same for its sweep. -/
theorem sweeps_keep_covering {boxes : List Box} (some : boxes ≠ [])
    (feasible : ∀ b ∈ boxes, b.isFeasible) (axis axes : Nat) :
    Swept boxes axis ∧ ∀ left inner, Reaches axes (behind axis boxes) left inner →
      ∃ chosen : List Box, chosen ≠ [] ∧ chosen.Subperm boxes ∧ (∀ b ∈ chosen, b.isFeasible) ∧
        left ≤ axes ∧ inner = behind (axis + (axes - left)) chosen ∧
        Swept chosen (axis + (axes - left)) := by
  refine ⟨swept_of_feasible feasible axis, fun left inner reached => ?_⟩
  induction reached with
  | here =>
    rw [Nat.sub_self]
    exact ⟨boxes, some, .refl _, feasible, Nat.le_refl _, rfl, swept_of_feasible feasible axis⟩
  | @further left outer inner cell reached call ih =>
    obtain ⟨chosen, _, part, alive, depth, rfl, swept⟩ := ih
    obtain ⟨active, next, _, _, nonempty, within, rfl⟩ := swept.passes cell inner call
    have still : ∀ b ∈ next, b.isFeasible := fun b mem => alive b (within.subset mem)
    have deeper : axis + (axes - (left + 1)) + 1 = axis + (axes - left) := by omega
    rw [deeper]
    exact ⟨next, nonempty, within.trans part, still, by omega, rfl, swept_of_feasible still _⟩

def staggered : List Box :=
  [⟨["x", "s"], [⟨1, 10⟩, ⟨1, 2⟩], rfl⟩, ⟨["x", "s"], [⟨3, 5⟩, ⟨3, 4⟩], rfl⟩,
    ⟨["x", "s"], [⟨6, 8⟩, ⟨2, 4⟩], rfl⟩]

theorem staggered_sweep :
    (sweep (strips (behind 0 staggered))).map (fun visited =>
      (visited.1, visited.2.map (·.place))) =
        [(⟨1, 2⟩, [0]), (⟨3, 5⟩, [0, 1]), (⟨6, 8⟩, [0, 2]), (⟨9, 10⟩, [0])] ∧
    Swept staggered 0 ∧
    ∃ chosen : List Box, chosen.Subperm staggered ∧
      [[⟨1, 2⟩], [⟨3, 4⟩]] = behind 1 chosen ∧ Swept chosen 1 := by
  have feasible : ∀ b ∈ staggered, b.isFeasible := by decide
  obtain ⟨swept, further⟩ := sweeps_keep_covering (List.cons_ne_nil _ _) feasible 0 2
  have computed : calls (behind 0 staggered) =
      [(⟨1, 2⟩, [[⟨1, 2⟩]]), (⟨3, 5⟩, [[⟨1, 2⟩], [⟨3, 4⟩]]), (⟨6, 8⟩, [[⟨1, 2⟩], [⟨2, 4⟩]]),
        (⟨9, 10⟩, [[⟨1, 2⟩]])] := by cbv
  have call : (⟨3, 5⟩, [[⟨1, 2⟩], [⟨3, 4⟩]]) ∈ calls (behind 0 staggered) := by simp [computed]
  obtain ⟨chosen, _, part, _, _, same, below⟩ := further 1 _ (.further .here call)
  exact ⟨by cbv, swept, chosen, part, same, below⟩

end RouteVolume.Cover
