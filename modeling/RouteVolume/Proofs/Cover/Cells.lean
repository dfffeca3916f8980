import RouteVolume.Cover
import RouteVolume.Proofs.Box.Points

namespace RouteVolume.Cover

theorem mem_distinct {x : Int} {xs : List Int} : x ∈ distinct xs ↔ x ∈ xs := by
  fun_induction distinct xs with
  | case1 y rest ih =>
    rw [ih, List.mem_cons, List.mem_cons, List.mem_cons]
    tauto
  | case2 y z rest _ ih => rw [List.mem_cons, ih, List.mem_cons (l := z :: rest)]
  | case3 => rfl

theorem ascending_distinct {xs : List Int} (sorted : xs.Pairwise (· ≤ ·)) :
    (distinct xs).Pairwise (· < ·) := by
  fun_induction distinct xs with
  | case1 y rest ih => exact ih sorted.tail
  | case2 y z rest differ ih =>
    obtain ⟨least, later⟩ := List.pairwise_cons.mp sorted
    refine List.pairwise_cons.mpr ⟨fun x mem => ?_, ih later⟩
    rcases List.mem_cons.mp (mem_distinct.mp mem) with rfl | behind
    · have := least x List.mem_cons_self
      omega
    · have before := least z List.mem_cons_self
      have after := (List.pairwise_cons.mp later).1 x behind
      omega
  | case3 short _ =>
    rcases short with _ | ⟨x, _ | ⟨y, rest⟩⟩
    · exact List.Pairwise.nil
    · exact List.pairwise_singleton _ _
    · simp_all

theorem pairwise_mergeSort_key {α : Type} (key : α → Int) (xs : List α) :
    (xs.mergeSort fun x y => key x ≤ key y).Pairwise fun x y => key x ≤ key y := by
  refine List.Pairwise.imp (fun le => of_decide_eq_true le) (List.pairwise_mergeSort ?_ ?_ xs)
  · intro x y z
    simp only [decide_eq_true_eq]
    exact Int.le_trans
  · intro x y
    simp only [Bool.or_eq_true, decide_eq_true_eq]
    exact Int.le_total _ _

theorem ascending_cuts (ranges : List Interval) : (cuts ranges).Pairwise (· < ·) :=
  ascending_distinct (pairwise_mergeSort_key id _)

theorem mem_cuts {x : Int} {ranges : List Interval} :
    x ∈ cuts ranges ↔ ∃ i ∈ ranges, x = i.lo ∨ x = i.hi + 1 := by
  unfold cuts
  rw [mem_distinct, (List.mergeSort_perm _ _).mem_iff, List.mem_flatMap]
  simp only [List.mem_cons, List.not_mem_nil, or_false]

theorem ends_mem_cuts {i : Interval} {ranges : List Interval} (listed : i ∈ ranges) :
    i.lo ∈ cuts ranges ∧ i.hi + 1 ∈ cuts ranges :=
  ⟨mem_cuts.mpr ⟨i, listed, .inl rfl⟩, mem_cuts.mpr ⟨i, listed, .inr rfl⟩⟩

theorem lo_mem_of_between {ends : List Int} {cell : Interval} (mem : cell ∈ between ends) :
    cell.lo ∈ ends := by
  fun_induction between ends with
  | case1 lo next rest ih =>
    rcases List.mem_cons.mp mem with rfl | behind
    · exact List.mem_cons_self
    · exact List.mem_cons_of_mem _ (ih behind)
  | case2 => cases mem

theorem lo_le_hi_of_between {ends : List Int} {cell : Interval} (ascending : ends.Pairwise (· < ·))
    (mem : cell ∈ between ends) : cell.lo ≤ cell.hi := by
  fun_induction between ends with
  | case1 lo next rest ih =>
    obtain ⟨least, later⟩ := List.pairwise_cons.mp ascending
    rcases List.mem_cons.mp mem with rfl | behind
    · exact Int.le_sub_one_of_lt (least next List.mem_cons_self)
    · exact ih later behind
  | case2 => cases mem

theorem cut_outside_cell {ends : List Int} {cell : Interval} {x : Int}
    (ascending : ends.Pairwise (· < ·)) (mem : cell ∈ between ends) (cut : x ∈ ends) :
    x ≤ cell.lo ∨ cell.hi < x := by
  fun_induction between ends with
  | case1 lo next rest ih =>
    obtain ⟨least, later⟩ := List.pairwise_cons.mp ascending
    rcases List.mem_cons.mp cut with rfl | further
    · left
      rcases List.mem_cons.mp mem with rfl | behind
      · exact Int.le_refl _
      · exact Int.le_of_lt (least _ (lo_mem_of_between behind))
    · rcases List.mem_cons.mp mem with rfl | behind
      · right
        rcases List.mem_cons.mp further with rfl | further
        · exact Int.sub_one_lt_of_le (Int.le_refl _)
        · have := (List.pairwise_cons.mp later).1 x further
          simp only
          omega
      · exact ih later behind further
  | case2 => cases mem

theorem mem_iff_covers {ranges : List Interval} {cell i : Interval} {x : Int}
    (mem : cell ∈ cells ranges) (listed : i ∈ ranges) (within : x ∈ cell) :
    x ∈ i ↔ i.lo ≤ cell.lo ∧ cell.hi ≤ i.hi := by
  obtain ⟨opens, closes⟩ := ends_mem_cuts listed
  have before := cut_outside_cell (ascending_cuts ranges) mem opens
  have behind := cut_outside_cell (ascending_cuts ranges) mem closes
  rw [Interval.mem_def] at within ⊢
  omega

theorem head_le_of_ascending {first x : Int} {ends : List Int}
    (ascending : (first :: ends).Pairwise (· < ·)) (mem : x ∈ first :: ends) : first ≤ x := by
  rcases List.mem_cons.mp mem with rfl | behind
  · exact Int.le_refl _
  · exact Int.le_of_lt ((List.pairwise_cons.mp ascending).1 x behind)

theorem le_getLast_of_ascending {first x : Int} {ends : List Int}
    (ascending : (first :: ends).Pairwise (· < ·)) (mem : x ∈ first :: ends) :
    x ≤ (first :: ends).getLast (List.cons_ne_nil _ _) := by
  induction ends generalizing first x with
  | nil => exact Int.le_of_eq (List.mem_singleton.mp mem)
  | cons next rest ih =>
    obtain ⟨least, later⟩ := List.pairwise_cons.mp ascending
    rw [List.getLast_cons (List.cons_ne_nil next rest)]
    rcases List.mem_cons.mp mem with rfl | behind
    · exact Int.le_trans (Int.le_of_lt (least next List.mem_cons_self))
        (ih later List.mem_cons_self)
    · exact ih later behind

theorem sum_between (weight : Int → Nat) {first : Int} {ends : List Int}
    (ascending : (first :: ends).Pairwise (· < ·)) :
    ∑ x ∈ Interval.points ⟨first, (first :: ends).getLast (List.cons_ne_nil _ _) - 1⟩, weight x =
      total ((between (first :: ends)).map fun cell => ∑ x ∈ cell.points, weight x) := by
  induction ends generalizing first with
  | nil =>
    have none : Interval.points ⟨first, first - 1⟩ = ∅ := by
      rw [← Finset.card_eq_zero, Interval.card_points, Interval.size]
      simp only
      omega
    rw [List.getLast_singleton, none, Finset.sum_empty]
    rfl
  | cons next rest ih =>
    obtain ⟨least, later⟩ := List.pairwise_cons.mp ascending
    have onward := le_getLast_of_ascending later List.mem_cons_self
    have start := least next List.mem_cons_self
    rw [List.getLast_cons (List.cons_ne_nil next rest), between, List.map_cons, total_cons,
      ← ih later]
    generalize (next :: rest).getLast (List.cons_ne_nil next rest) = last at onward
    have disjoint : Disjoint (Interval.points ⟨first, next - 1⟩)
        (Interval.points ⟨next, last - 1⟩) := by
      apply Finset.disjoint_left.mpr
      intro x left right
      rw [Interval.mem_points, Interval.mem_def] at left right
      simp only at left right
      omega
    have joined : Interval.points ⟨first, last - 1⟩ =
        Interval.points ⟨first, next - 1⟩ ∪ Interval.points ⟨next, last - 1⟩ := by
      ext x
      rw [Finset.mem_union, Interval.mem_points, Interval.mem_points, Interval.mem_points]
      simp only [Interval.mem_def]
      omega
    rw [joined, Finset.sum_union disjoint]

end RouteVolume.Cover
