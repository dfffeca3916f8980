import Mathlib
import RouteVolume.Proofs.Cover.Sweep

namespace RouteVolume.Cover

def filled (boxes : List (List Interval)) : Finset Point := boxes.toFinset.biUnion Box.grid

theorem mem_filled {boxes : List (List Interval)} {p : Point} :
    p ∈ filled boxes ↔ ∃ ranges ∈ boxes, p ∈ Box.grid ranges := by
  unfold filled
  rw [Finset.mem_biUnion]
  simp only [List.mem_toFinset]

theorem filled_congr {left right : List (List Interval)}
    (same : ∀ ranges, ranges ∈ left ↔ ranges ∈ right) : filled left = filled right := by
  ext p
  rw [mem_filled, mem_filled]
  exact exists_congr fun ranges => and_congr_left' (same ranges)

theorem mem_strips_iff_getElem? {boxes : List (List Interval)} {s : Strip} :
    s ∈ strips boxes ↔ boxes[s.place]? = some (s.range :: s.rest) := by
  unfold strips
  rw [List.mem_filterMap]
  constructor
  · intro ⟨⟨ranges, place⟩, listed, made⟩
    have stored := List.mem_zipIdx_iff_getElem?.mp listed
    cases ranges with
    | nil => cases made
    | cons range rest =>
      cases made
      exact stored
  · intro stored
    exact ⟨(s.range :: s.rest, s.place), List.mem_zipIdx_iff_getElem?.mpr stored, rfl⟩

theorem mem_strips {boxes : List (List Interval)} {range : Interval} {rest : List Interval} :
    range :: rest ∈ boxes ↔ ∃ s ∈ strips boxes, s.range = range ∧ s.rest = rest := by
  constructor
  · intro mem
    obtain ⟨place, stored⟩ := List.mem_iff_getElem?.mp mem
    exact ⟨⟨place, range, rest⟩, mem_strips_iff_getElem?.mpr stored, rfl, rfl⟩
  · intro ⟨s, mem, one, two⟩
    subst one two
    exact List.mem_of_getElem? (mem_strips_iff_getElem?.mp mem)

def slice (boxes : List (List Interval)) (x : Int) : Finset Point :=
  filled (((strips boxes).filter fun s => x ∈ s.range).map (·.rest))

theorem mem_slice {boxes : List (List Interval)} {x : Int} {p : Point} :
    p ∈ slice boxes x ↔ x :: p ∈ filled boxes := by
  unfold slice
  rw [mem_filled, mem_filled]
  constructor
  · intro ⟨rest, mem, within⟩
    obtain ⟨s, chosen, rfl⟩ := List.mem_map.mp mem
    obtain ⟨strip, holds⟩ := List.mem_filter.mp chosen
    refine ⟨s.range :: s.rest, mem_strips.mpr ⟨s, strip, rfl, rfl⟩, ?_⟩
    exact Box.mem_grid.mpr (.cons (of_decide_eq_true holds) (Box.mem_grid.mp within))
  · intro ⟨ranges, mem, within⟩
    obtain ⟨range, rest, holds, behind, rfl⟩ :=
      List.forall₂_cons_left_iff.mp (Box.mem_grid.mp within)
    obtain ⟨s, strip, rfl, rfl⟩ := mem_strips.mp mem
    refine ⟨s.rest, List.mem_map.mpr ⟨s, ?_, rfl⟩, Box.mem_grid.mpr behind⟩
    exact List.mem_filter.mpr ⟨strip, decide_eq_true holds⟩

theorem card_filled_eq_sum {boxes : List (List Interval)} {values : Finset Int}
    (deep : ∀ ranges ∈ boxes, ranges ≠ [])
    (holds : ∀ s ∈ strips boxes, ∀ x ∈ s.range, x ∈ values) :
    (filled boxes).card = ∑ x ∈ values, (slice boxes x).card := by
  have onAxis (p : Point) (mem : p ∈ filled boxes) :
      ∃ x ∈ values, ∃ q, p = x :: q := by
    obtain ⟨ranges, box, within⟩ := mem_filled.mp mem
    obtain ⟨range, rest, rfl⟩ := List.exists_cons_of_ne_nil (deep ranges box)
    obtain ⟨x, q, value, _, rfl⟩ := List.forall₂_cons_right_iff.mp (Box.mem_grid.mp within)
    obtain ⟨s, strip, rfl, rfl⟩ := mem_strips.mp box
    exact ⟨x, holds s strip x value, q, rfl⟩
  have first (p : Point) (mem : p ∈ (filled boxes : Set Point)) : p.headD 0 ∈ values := by
    obtain ⟨x, value, q, rfl⟩ := onAxis p mem
    exact value
  rw [Finset.card_eq_sum_card_fiberwise first]
  apply Finset.sum_congr rfl
  intro x _
  rw [← Finset.card_map ⟨(x :: ·), List.cons_injective⟩ (s := slice boxes x)]
  congr 1
  ext p
  rw [Finset.mem_filter, Finset.mem_map]
  constructor
  · intro ⟨mem, same⟩
    subst same
    obtain ⟨x, _, q, rfl⟩ := onAxis p mem
    exact ⟨q, mem_slice.mpr mem, rfl⟩
  · intro ⟨q, mem, same⟩
    subst same
    exact ⟨mem_slice.mp mem, rfl⟩

def Measurable (axes : Nat) (boxes : List (List Interval)) : Prop :=
  ∀ ranges ∈ boxes, ranges.length = axes ∧ ∀ i ∈ ranges, i.isEmpty = false

theorem Measurable.rest {axes : Nat} {boxes : List (List Interval)} {chosen : List Strip}
    (measurable : Measurable (axes + 1) boxes) (part : ∀ s ∈ chosen, s ∈ strips boxes) :
    Measurable axes (chosen.map (·.rest)) := by
  intro ranges mem
  obtain ⟨s, picked, rfl⟩ := List.mem_map.mp mem
  obtain ⟨length, filled⟩ := measurable _ (mem_strips.mpr ⟨s, part s picked, rfl, rfl⟩)
  exact ⟨Nat.succ.inj length, fun i behind => filled i (List.mem_cons_of_mem _ behind)⟩

theorem Measurable.range {axes : Nat} {boxes : List (List Interval)} {s : Strip}
    (measurable : Measurable axes boxes) (strip : s ∈ strips boxes) :
    s.range.lo ≤ s.range.hi := by
  have filled := (measurable _ (mem_strips.mpr ⟨s, strip, rfl, rfl⟩)).2 _ List.mem_cons_self
  simpa [Interval.isEmpty] using filled

theorem slice_eq_of_mem_cell {boxes : List (List Interval)} {cell : Interval} {x : Int}
    (mem : cell ∈ cells ((strips boxes).map (·.range))) (within : x ∈ cell) :
    slice boxes x = filled ((covering cell (strips boxes)).map (·.rest)) := by
  unfold slice covering
  apply congrArg (fun chosen : List Strip => filled (chosen.map (·.rest)))
  apply List.filter_congr
  intro s strip
  exact decide_eq_decide.mpr (mem_iff_covers mem (List.mem_map_of_mem strip) within)

theorem Measurable.ne_nil {axes : Nat} {boxes : List (List Interval)}
    (measurable : Measurable (axes + 1) boxes) : ∀ ranges ∈ boxes, ranges ≠ [] :=
  fun ranges mem => List.ne_nil_of_length_eq_add_one (measurable ranges mem).1

theorem filled_zero {boxes : List (List Interval)} (some : boxes ≠ [])
    (measurable : Measurable 0 boxes) : filled boxes = {[]} := by
  obtain ⟨ranges, mem⟩ := List.exists_mem_of_ne_nil _ some
  have bare (ranges : List Interval) (mem : ranges ∈ boxes) : ranges = [] :=
    List.length_eq_zero_iff.mp (measurable ranges mem).1
  ext p
  rw [mem_filled, Finset.mem_singleton]
  constructor
  · intro ⟨ranges, mem, within⟩
    rw [bare ranges mem] at within
    exact Finset.mem_singleton.mp within
  · intro none
    rw [none]
    exact ⟨ranges, mem, bare ranges mem ▸ Finset.mem_singleton_self _⟩

theorem sum_cells {axes : Nat} {boxes : List (List Interval)} (some : boxes ≠ [])
    (measurable : Measurable (axes + 1) boxes) :
    (filled boxes).card = total ((cells ((strips boxes).map (·.range))).map fun cell =>
      ∑ x ∈ cell.points, (slice boxes x).card) := by
  obtain ⟨ranges, box⟩ := List.exists_mem_of_ne_nil _ some
  obtain ⟨range, rest, split⟩ := List.exists_cons_of_ne_nil (measurable.ne_nil ranges box)
  obtain ⟨s, strip, _, _⟩ := mem_strips.mp (split ▸ box)
  have listed : s.range ∈ (strips boxes).map (·.range) := List.mem_map_of_mem strip
  have cut := List.ne_nil_of_mem (ends_mem_cuts listed).1
  obtain ⟨first, later, ends⟩ := List.exists_cons_of_ne_nil cut
  have ascending : (first :: later).Pairwise (· < ·) := ends ▸ ascending_cuts _
  have holds (s : Strip) (strip : s ∈ strips boxes) (x : Int) (within : x ∈ s.range) :
      x ∈ Interval.points ⟨first, (first :: later).getLast (List.cons_ne_nil _ _) - 1⟩ := by
    have opens : s.range.lo ∈ first :: later :=
      ends ▸ (ends_mem_cuts (List.mem_map_of_mem strip)).1
    have closes : s.range.hi + 1 ∈ first :: later :=
      ends ▸ (ends_mem_cuts (List.mem_map_of_mem strip)).2
    have least := head_le_of_ascending ascending opens
    have greatest := le_getLast_of_ascending ascending closes
    rw [Interval.mem_def] at within
    rw [Interval.mem_points, Interval.mem_def]
    simp only
    omega
  rw [card_filled_eq_sum measurable.ne_nil holds, cells, ends, sum_between _ ascending]

theorem measure_eq_card {axes : Nat} {boxes : List (List Interval)} (some : boxes ≠ [])
    (measurable : Measurable axes boxes) : measure axes boxes = (filled boxes).card := by
  induction axes generalizing boxes with
  | zero => rw [measure, filled_zero some measurable, Finset.card_singleton]
  | succ axes ih =>
    -- Cell by cell: its slices are all alike, and the axes behind measure one of them.
    obtain ⟨visited, swept⟩ := sweep_covers fun s strip => measurable.range strip
    rw [sum_cells some measurable, measure, ← visited, List.map_map]
    refine congrArg total (List.map_congr_left fun ⟨cell, active⟩ visit => ?_)
    have covers : active.Perm (covering cell (strips boxes)) := swept _ visit
    have mem : cell ∈ cells ((strips boxes).map (·.range)) := visited ▸ List.mem_map_of_mem visit
    rw [Function.comp_apply]
    have alike (x : Int) (within : x ∈ cell.points) :
        (slice boxes x).card = (filled (active.map (·.rest))).card := by
      rw [slice_eq_of_mem_cell mem (Interval.mem_points.mp within)]
      apply congrArg Finset.card
      apply filled_congr
      intro ranges
      exact (covers.map _).mem_iff.symm
    rw [Finset.sum_congr rfl alike, Finset.sum_const, Interval.card_points, Nat.nsmul_eq_mul]
    cases active with
    | nil => rfl
    | cons s others =>
      have part (t : Strip) (mem : t ∈ s :: others) : t ∈ strips boxes :=
        (mem_covering.mp (covers.mem_iff.mp mem)).1
      rw [← ih (by simp) (measurable.rest part)]
      rfl

/-- Do the boxes that hold any point have the same axes? -/
def Agree (boxes : List Box) : Prop :=
  ∀ a ∈ boxes, ∀ b ∈ boxes, a.isFeasible → b.isFeasible → a.attrs = b.attrs

theorem mem_live {boxes : List Box} {b : Box} :
    b ∈ live boxes ↔ b ∈ boxes ∧ b.isFeasible = true := List.mem_filter

theorem measurable_of_feasible {axes : List String} {boxes : List Box}
    (alike : ∀ b ∈ boxes, b.isFeasible ∧ b.attrs = axes) :
    Measurable axes.length (boxes.map (·.ranges)) := by
  intro ranges mem
  obtain ⟨b, box, rfl⟩ := List.mem_map.mp mem
  obtain ⟨feasible, same⟩ := alike b box
  refine ⟨by rw [← b.sameLength, same], fun i axis => ?_⟩
  simp only [Box.isFeasible, Bool.not_eq_true', List.any_eq_false] at feasible
  simpa using feasible i axis

theorem coe_filled_live (boxes : List Box) :
    (filled ((live boxes).map (·.ranges)) : Set Point) = {p : Point | ∃ b ∈ boxes, p ∈ b} := by
  ext p
  rw [Finset.mem_coe, mem_filled, Set.mem_ofPred_eq]
  constructor
  · intro ⟨ranges, mem, within⟩
    obtain ⟨b, alive, rfl⟩ := List.mem_map.mp mem
    exact ⟨b, (mem_live.mp alive).1, Box.mem_grid.mp within⟩
  · intro ⟨b, mem, within⟩
    have alive := mem_live.mpr ⟨mem, (b.isFeasible_iff).mpr ⟨p, within⟩⟩
    exact ⟨b.ranges, List.mem_map_of_mem alive, Box.mem_grid.mpr within⟩

theorem union_of_agree {boxes : List Box} (agree : Agree boxes) :
    ∃ n : Nat, union boxes = .ok n ∧ {p : Point | ∃ b ∈ boxes, p ∈ b}.encard = n := by
  rw [← coe_filled_live]
  refine ⟨_, ?_, Set.encard_coe_eq_coe_finsetCard _⟩
  have living (b : Box) (mem : b ∈ live boxes) := mem_live.mp mem
  cases alive : live boxes with
  | nil =>
    unfold union
    rw [alive]
    rfl
  | cons first rest =>
    rw [alive] at living
    have same (b : Box) (mem : b ∈ first :: rest) : b.isFeasible ∧ b.attrs = first.attrs := by
      obtain ⟨inFirst, feasibleFirst⟩ := living first List.mem_cons_self
      obtain ⟨inside, feasible⟩ := living b mem
      exact ⟨feasible, agree b inside first inFirst feasible feasibleFirst⟩
    have noOther : rest.find? (fun b => b.attrs ≠ first.attrs) = none := by
      rw [List.find?_eq_none]
      intro b mem
      simp [(same b (List.mem_cons_of_mem _ mem)).2]
    rw [← measure_eq_card (by simp) (measurable_of_feasible same)]
    simp only [union, alive, noOther]

theorem union_of_disagree {boxes : List Box} (disagree : ¬ Agree boxes) :
    ∃ left right, union boxes = .error (.axes left right) := by
  cases alive : live boxes with
  | nil =>
    refine absurd (fun a inside b _ feasible _ => ?_) disagree
    have := alive ▸ mem_live.mpr ⟨inside, feasible⟩
    cases this
  | cons first rest =>
    cases found : rest.find? fun b => b.attrs ≠ first.attrs with
    | some other =>
      refine ⟨first.attrs, other.attrs, ?_⟩
      simp only [union, alive, found]
    | none =>
      have same (b : Box) (inside : b ∈ boxes) (feasible : b.isFeasible = true) :
          b.attrs = first.attrs := by
        have mem := mem_live.mpr ⟨inside, feasible⟩
        rw [alive] at mem
        rcases List.mem_cons.mp mem with rfl | behind
        · rfl
        · simpa using List.find?_eq_none.mp found b behind
      refine absurd (fun a inA b inB feasibleA feasibleB => ?_) disagree
      rw [same a inA feasibleA, same b inB feasibleB]

/-- Where the boxes that hold any point have the same axes, the union counts the points that lie
in one or more of them; where they do not, the boxes are refused, and only there. -/
theorem union_counts_points (boxes : List Box) :
    (Agree boxes →
      ∃ n : Nat, union boxes = .ok n ∧ {p : Point | ∃ b ∈ boxes, p ∈ b}.encard = n) ∧
    ((∃ left right, union boxes = .error (.axes left right)) ↔
      ∃ a ∈ boxes, ∃ b ∈ boxes, a.isFeasible ∧ b.isFeasible ∧ a.attrs ≠ b.attrs) := by
  refine ⟨union_of_agree, fun ⟨left, right, refused⟩ => ?_, fun differ => ?_⟩
  · have disagree : ¬ Agree boxes := fun agree => by
      obtain ⟨n, counted, _⟩ := union_of_agree agree
      rw [counted] at refused
      cases refused
    simpa only [Agree, not_forall, exists_prop] using disagree
  · obtain ⟨a, inA, b, inB, feasibleA, feasibleB, other⟩ := differ
    exact union_of_disagree fun agree => other (agree a inA b inB feasibleA feasibleB)

def overlapping : List Box :=
  [⟨["x", "m"], [⟨1, 3⟩, ⟨1, 5⟩], rfl⟩, ⟨["y"], [⟨3, 1⟩], rfl⟩,
    ⟨["x", "m"], [⟨2, 4⟩, ⟨1, 5⟩], rfl⟩]

theorem union_of_overlapping :
    Agree overlapping ∧ {p : Point | ∃ b ∈ overlapping, p ∈ b}.encard = 20 := by
  have agree : Agree overlapping := by
    unfold Agree
    decide
  obtain ⟨n, counted, size⟩ := (union_counts_points overlapping).1 agree
  have computed : union overlapping = .ok 20 := by cbv
  rw [computed] at counted
  cases counted
  exact ⟨agree, size⟩

end RouteVolume.Cover
