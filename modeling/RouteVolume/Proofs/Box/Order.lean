import RouteVolume.Proofs.Box.Points

namespace RouteVolume.Box

def pairs (b : Box) : List (Int × Int) := b.ranges.map fun i => (i.lo, i.hi)

def Precedes (a b : Box) : Prop := List.Lex (Prod.Lex (· < ·) (· < ·)) a.pairs b.pairs

theorem endsLe_total (xs ys : List Int) : endsLe xs ys || endsLe ys xs := by
  fun_induction endsLe xs ys with
  | case1 ys => exact Bool.true_or _
  | case2 x xs => rfl
  | case3 x xs ys ih =>
    rw [endsLe, if_pos rfl]
    exact ih
  | case4 x xs y ys differ =>
    rw [endsLe, if_neg (Ne.symm differ), Bool.or_eq_true, decide_eq_true_iff, decide_eq_true_iff]
    exact lt_or_gt_of_ne differ

theorem endsLe_trans (xs ys zs : List Int) (first : endsLe xs ys) (second : endsLe ys zs) :
    endsLe xs zs := by
  fun_induction endsLe xs ys generalizing zs with
  | case1 ys => rw [endsLe]
  | case2 x xs => cases first
  | case3 x xs ys ih =>
    cases zs with
    | nil => cases second
    | cons z zs =>
      rw [endsLe] at second ⊢
      split
      · rename_i same
        rw [if_pos same] at second
        exact ih zs first second
      · rename_i differ
        rwa [if_neg differ] at second
  | case4 x xs y ys differ =>
    have less := of_decide_eq_true first
    cases zs with
    | nil => cases second
    | cons z zs =>
      have further : x < z := by
        rw [endsLe] at second
        split at second
        · rename_i same
          exact same ▸ less
        · exact Int.lt_trans less (of_decide_eq_true second)
      rw [endsLe, if_neg (Int.ne_of_lt further)]
      exact decide_eq_true further

theorem lex_of_endsLe {is js : List Interval}
    (le : endsLe (is.flatMap fun i => [i.lo, i.hi]) (js.flatMap fun j => [j.lo, j.hi]))
    (differ : is ≠ js) :
    List.Lex (Prod.Lex (· < ·) (· < ·)) (is.map fun i => (i.lo, i.hi))
      (js.map fun j => (j.lo, j.hi)) := by
  induction is generalizing js with
  | nil =>
    cases js with
    | nil => exact absurd rfl differ
    | cons j js => exact .nil
  | cons i is ih =>
    cases js with
    | nil => cases le
    | cons j js =>
      simp only [List.flatMap_cons, List.cons_append, List.nil_append, endsLe] at le
      by_cases lo : i.lo = j.lo
      · rw [if_pos lo] at le
        by_cases hi : i.hi = j.hi
        · rw [if_pos hi] at le
          have same : i = j := by
            cases i
            cases j
            cases lo
            cases hi
            rfl
          rw [List.map_cons, List.map_cons, same]
          exact .cons (ih le fun rest => differ (by rw [same, rest]))
        · rw [if_neg hi] at le
          have second : Prod.Lex (· < ·) (· < ·) (j.lo, i.hi) (j.lo, j.hi) :=
            .right _ (of_decide_eq_true le)
          have first : Prod.Lex (· < ·) (· < ·) (i.lo, i.hi) (j.lo, j.hi) := lo ▸ second
          exact .rel first
      · rw [if_neg lo] at le
        exact .rel (.left _ _ (of_decide_eq_true le))

theorem pairwise_sorted (boxes : List Box) :
    (sorted boxes).Pairwise fun a b => endsLe a.ends b.ends :=
  List.pairwise_mergeSort (fun a b c => endsLe_trans a.ends b.ends c.ends)
    (fun a b => endsLe_total a.ends b.ends) boxes

theorem sorted_perm (boxes : List Box) : (sorted boxes).Perm boxes := List.mergeSort_perm _ _

/-- No two boxes have a point in common. -/
def Apart (boxes : List Box) : Prop := boxes.Pairwise fun a b => ∀ p, ¬ (p ∈ a ∧ p ∈ b)

theorem Apart.sorted {boxes : List Box} (apart : Apart boxes) : Apart (sorted boxes) :=
  (sorted_perm boxes).symm.pairwise apart fun none_ p both => none_ p both.symm

theorem Apart.ascending {boxes : List Box} (apart : Apart boxes)
    (feasible : ∀ b ∈ boxes, b.isFeasible) : (Box.sorted boxes).Pairwise Precedes := by
  refine ((pairwise_sorted boxes).and apart.sorted).imp_of_mem ?_
  intro a b inA _ ⟨le, disjoint⟩
  refine lex_of_endsLe le fun same => ?_
  -- Boxes with the same ends have the same points, and the first has some.
  obtain ⟨p, within⟩ := (isFeasible_iff a).mp (feasible a ((sorted_perm boxes).mem_iff.mp inA))
  exact disjoint p ⟨within, mem_def.mpr (same ▸ mem_def.mp within)⟩

theorem put_of_fresh {entries : List (String × Interval)} {name : String} (i : Interval)
    (fresh : name ∉ entries.map (·.1)) : put entries name i = entries ++ [(name, i)] := by
  induction entries with
  | nil => rfl
  | cons entry rest ih =>
    rw [List.map_cons, List.mem_cons, not_or] at fresh
    rw [put, if_neg (Ne.symm fresh.1), ih fresh.2, List.cons_append]

theorem entries_eq_axes {b : Box} (distinct : b.attrs.Nodup) : b.entries = b.axes := by
  have kept (kept entries : List (String × Interval))
      (distinct : ((kept ++ entries).map (·.1)).Nodup) :
      entries.foldl (fun kept axis => put kept axis.1 axis.2) kept = kept ++ entries := by
    induction entries generalizing kept with
    | nil => exact (List.append_nil _).symm
    | cons entry rest ih =>
      obtain ⟨name, i⟩ := entry
      have split : kept ++ (name, i) :: rest = (kept ++ [(name, i)]) ++ rest := by simp
      have fresh : name ∉ kept.map (·.1) := by
        rw [List.map_append, List.map_cons] at distinct
        exact fun old => (List.nodup_append.mp distinct).2.2 _ old _ List.mem_cons_self rfl
      rw [List.foldl_cons, split]
      dsimp only
      rw [put_of_fresh i fresh]
      exact ih _ (split ▸ distinct)
  have names : b.axes.map (·.1) = b.attrs := List.map_fst_zip (Nat.le_of_eq b.sameLength)
  exact kept [] b.axes (names.symm ▸ distinct)

end RouteVolume.Box
